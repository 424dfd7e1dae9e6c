import StackQueue.QueuePhase

namespace StackQueue.Queue

open IntervalChain ListUpdate

/-!
# The accepted tasks are partitioned into ranges

`State.ranges` lists the ranges of a state as intervals of unwrapped positions,
including the range whose handle the owner is still creating.  `Partition`
says that these ranges split the accepted tasks, that each handle carries the
true positions of its range modulo the index counter, how the owner decides
whether a call opens a range, and that what a call writes reaches the cell of
the position at which its task is then counted, and no other cell.
-/

variable {width : PointerWidth} {Cell Waker : Type}

/-- The write of the call in progress, until it is done. -/
def Owner.write? : Owner Cell → Option (Cell → Cell)
  | .entered write | .checking write _ | .loading write _
  | .writing write _ => some write
  | .idle | .adding _ | .replacing _ _ | .occupying _ _
  | .returning _ => none

namespace State

/--
Whether the owner has accepted a task that opens a range and has not created
its handle yet.
-/
def isOpening (state : State Cell Waker) : Bool :=
  match state.owner with
  | .replacing _ baseSlot => phaseOf baseSlot ≠ phaseOf state.slot
  | .occupying _ _ => true
  | _ => false

/-- All ranges, as intervals of positions counted without wrap-around. -/
def ranges (state : State Cell Waker) : List Interval :=
  state.spans ++
    if state.isOpening then
      [⟨state.accepted - 1, state.accepted⟩]
    else
      []

end State

/-- The phase protocol splits the accepted tasks into consecutive ranges. -/
structure Partition
    (N : BufferSize width)
    (state : State Cell Waker) : Prop where
  /-- At most one handle is unbounded. -/
  atMostOneUnbounded :
    ∀ (i j : Nat) (first second : Handle),
      state.handles[i]? = some first →
      state.handles[j]? = some second →
      first.stage = .unbounded →
      second.stage = .unbounded →
      i = j
  /-- The `k`-th accepted task was written to cell `k mod N`. -/
  writtenInOrder :
    ∀ (k index : Nat),
      state.cells[k]? = some index → index = k % N.size
  /-- The write in progress goes to the cell of the next position. -/
  writesNext :
    ∀ (write : Cell → Cell) (index : Nat),
      state.owner = .writing write index →
      index = state.accepted % N.size
  /-- A call brings the write of its own task. -/
  callsWrite :
    ∀ (write : Cell → Cell) (after : State Cell Waker),
      step N state (.call write) = some after →
      after.owner.write? = some write
  /-- Its accesses before the write keep it, or one of them refuses the call. -/
  carriesWrite :
    ∀ (write : Cell → Cell),
      state.owner.write? = some write →
      (∀ index, state.owner ≠ .writing write index) →
      ∃ after,
        step N state .owner = some after ∧
          (after.owner.write? = some write ∨
            after.owner = .returning .queueFull)
  /--
  The write changes the cell of the next position, as the call asks for, and
  no other cell; the `fetch_add` comes next.
  -/
  writesCell :
    ∀ (write : Cell → Cell) (index : Nat),
      state.owner = .writing write index →
      ∃ after,
        step N state .owner = some after ∧
          after.owner = .adding (state.accepted % N.size) ∧
          after.buffer =
            Function.update state.buffer (state.accepted % N.size)
              (write (state.buffer (state.accepted % N.size)))
  /-- The `fetch_add` counts the task at the cell that was written. -/
  countsCell :
    ∀ index,
      state.owner = .adding index →
      ∃ after,
        step N state .owner = some after ∧
          after.cells = state.cells ++ [state.accepted % N.size]
  /-- Nothing else changes a cell, but code that holds a range. -/
  keepsCells :
    ∀ (action : Action Cell Waker) (after : State Cell Waker),
      step N state action = some after →
      after.buffer = state.buffer ∨
        (∃ index update, action = .touch index update) ∨
        ∃ write index,
          action = .owner ∧ state.owner = .writing write index
  /--
  An accepting call returns a handle exactly when no unbounded range existed
  at its `fetch_add`.
  -/
  opensWhenNoneUnbounded :
    ∀ admission,
      state.owner = .returning admission →
      admission ≠ .queueFull →
      ((∃ handle, admission = .opened handle) ↔
        state.unboundedAtAdd = false)
  /-- Every accepted task belongs to exactly one range. -/
  exactlyOneRange :
    ∀ position,
      position < state.accepted →
      ∃! i : Nat,
        ∃ interval : Interval,
          state.ranges[i]? = some interval ∧ interval.Covers position
  /-- Ranges are non-empty and hold accepted tasks only. -/
  nonempty :
    ∀ interval ∈ state.ranges,
      interval.first < interval.last ∧ interval.last ≤ state.accepted
  /-- Each range ends exactly where the next one starts. -/
  consecutive :
    ∀ (i : Nat) (earlier later : Interval),
      state.ranges[i]? = some earlier →
      state.ranges[i + 1]? = some later →
      earlier.last = later.first
  /-- A handle's start counter is the true position of its first task. -/
  startCounter :
    ∀ (i : Nat) (handle : Handle),
      state.handles[i]? = some handle →
      ∃ interval,
        state.ranges[i]? = some interval ∧
          handle.baseSlot >>> width.indexShift =
            interval.first % 2 ^ width.indexShift
  /-- A bounded handle's counters are the true ends of its range. -/
  boundedCounters :
    ∀ (i : Nat) (handle : Handle) (range : CounterRange),
      state.handles[i]? = some handle →
      handle.stage = .bounded range →
      ∃ interval,
        state.ranges[i]? = some interval ∧
          range.start = interval.first % 2 ^ width.indexShift ∧
          range.stop = interval.last % 2 ^ width.indexShift

namespace PhaseInvariant

variable
    {N : BufferSize width}
    {state : State Cell Waker}

/-- The handles' ranges miss at most the range that is being opened. -/
theorem accepted_eq
    (invariant : PhaseInvariant N state) :
    state.accepted =
      state.covered + if state.isOpening then 1 else 0 := by
  have owner := invariant.owner
  cases at_ : state.owner with
  | replacing index baseSlot =>
      rw [at_] at owner
      obtain ⟨position, basePhase, phase, accepted, _⟩ := owner
      by_cases joins : phaseOf baseSlot = phaseOf state.slot
      · simp [State.covered, State.isOpening, at_, joins]
      · simp [State.covered, State.isOpening, at_, joins, accepted]
  | occupying index baseSlot =>
      rw [at_] at owner
      obtain ⟨position, phase, accepted, _⟩ := owner
      simp [State.covered, State.isOpening, at_, accepted]
  | _ =>
      simp [State.covered, State.isOpening, at_]

/-- The ranges form a chain over all accepted tasks. -/
theorem ranges_chain
    (invariant : PhaseInvariant N state) :
    Chain 0 state.ranges state.accepted := by
  have accepted := invariant.accepted_eq
  unfold State.ranges
  split
  · rename_i opening
    rw [opening, if_pos rfl] at accepted
    rw [chain_concat]
    refine ⟨?_, ?_, rfl⟩
    · have first : state.accepted - 1 = state.covered := by omega
      simpa only [first] using invariant.chain
    · simp only
      omega
  · rename_i resting
    rw [if_neg resting, Nat.add_zero] at accepted
    rw [List.append_nil, accepted]
    exact invariant.chain

/-- A handle's range is its entry in the list of all ranges. -/
theorem ranges_getElem?
    {i : Nat}
    {handle : Handle}
    (found : state.handles[i]? = some handle) :
    state.ranges[i]? = some (handle.span state.covered) := by
  obtain ⟨inBounds, _⟩ := List.getElem?_eq_some_iff.mp found
  unfold State.ranges
  rw [List.getElem?_append_left (by simpa [State.spans] using inBounds),
    State.spans, List.getElem?_map, found]
  rfl

/-- The owner's accesses before the write, one by one. -/
theorem carriesWrite
    {write : Cell → Cell}
    (carries : state.owner.write? = some write)
    (before : ∀ index, state.owner ≠ .writing write index) :
    ∃ after,
      ownerStep N state = some after ∧
        (after.owner.write? = some write ∨
          after.owner = .returning .queueFull) := by
  rcases ownerStep_enabled N state with
    idle | ⟨admission, returning⟩ | ⟨after, taken⟩
  · rw [idle] at carries
    cases carries
  · rw [returning] at carries
    cases carries
  · refine ⟨after, taken, ?_⟩
    cases ownerStep_move taken with
    | write at_ =>
        rw [at_] at carries
        cases carries
        exact (before _ at_).elim
    | loadedBusy at_ _ => exact .inr rfl
    | enterAtBoundary at_ _ | enterInside at_ _ | cachedFree at_ _
    | cachedBusy at_ _ | loadedFree at_ _ =>
        rw [at_] at carries
        exact .inl carries
    | add at_ | replaceJoined at_ _ | replaceOpening at_ _
    | occupy at_ =>
        rw [at_] at carries
        cases carries

/-- Only the owner's write and code outside the queue change a cell. -/
theorem keepsCells
    {action : Action Cell Waker}
    {after : State Cell Waker}
    (moved : Move N state action after) :
    after.buffer = state.buffer ∨
      (∃ index update, action = .touch index update) ∨
      ∃ write index,
        action = .owner ∧ state.owner = .writing write index := by
  have frame := moved.frame
  cases moved with
  | owner moved =>
      cases moved with
      | write at_ => exact .inr (.inr ⟨_, _, rfl, at_⟩)
      | _ => exact .inl rfl
  | touch => exact .inr (.inl ⟨_, _, rfl⟩)
  | setBounds _ _ | deoccupyRegion _ _ | retry _ _ | steal _ _ =>
      exact .inl (frame rfl).2.1
  | call _ | finish _ | register _ => exact .inl rfl

/-- The invariant contains the partition. -/
theorem partition
    (invariant : PhaseInvariant N state) :
    Partition N state where
  atMostOneUnbounded := by
    intro i j first second atFirst atSecond firstStage secondStage
    have := invariant.onlyLast i first atFirst
      (by simp [Handle.isUnbounded, firstStage])
    have := invariant.onlyLast j second atSecond
      (by simp [Handle.isUnbounded, secondStage])
    omega
  writtenInOrder := invariant.cells
  writesNext := by
    intro write index at_
    have owner := invariant.owner
    rw [at_] at owner
    exact owner.1
  callsWrite := by
    intro write after taken
    cases step_move taken with
    | call at_ => rfl
  carriesWrite := fun _ carries before => carriesWrite carries before
  writesCell := by
    intro write index at_
    have owner := invariant.owner
    rw [at_] at owner
    have isNext : index = state.accepted % N.size := owner.1
    subst isNext
    exact ⟨_, (OwnerMove.write at_).taken, rfl, rfl⟩
  countsCell := by
    intro index at_
    have owner := invariant.owner
    rw [at_] at owner
    have isNext : index = state.accepted % N.size := owner.1
    subst isNext
    exact ⟨_, (OwnerMove.add at_).taken, rfl⟩
  keepsCells := fun _ _ taken => keepsCells (step_move taken)
  opensWhenNoneUnbounded := by
    intro admission at_ accepted
    have owner := invariant.owner
    rw [at_] at owner
    obtain ⟨_, joined, opened⟩ := owner
    cases admission with
    | queueFull =>
        exact (accepted rfl).elim
    | joined =>
        simp [joined rfl]
    | opened handle =>
        simp [(opened handle rfl).1]
  exactlyOneRange := by
    intro position isAccepted
    have chain := invariant.ranges_chain
    obtain ⟨i, interval, atInterval, covers⟩ :=
      chain.exists_covers (Nat.zero_le position) isAccepted
    refine ⟨i, ⟨interval, atInterval, covers⟩, ?_⟩
    rintro j ⟨other, atOther, otherCovers⟩
    exact chain.covers_unique atOther atInterval otherCovers covers
  nonempty := by
    intro interval member
    exact (invariant.ranges_chain.bounds member).2
  consecutive := by
    intro i earlier later atEarlier atLater
    exact invariant.ranges_chain.consecutive atEarlier atLater
  startCounter := by
    intro i handle found
    exact ⟨_, ranges_getElem? found,
      invariant.baseSlots handle (List.mem_of_getElem? found)⟩
  boundedCounters := by
    intro i handle range found stage
    refine ⟨_, ranges_getElem? found, ?_⟩
    rw [invariant.counters handle (List.mem_of_getElem? found) range stage]
    simp [Handle.span, Handle.isUnbounded, stage]

end PhaseInvariant

/--
In every reachable state of the queue, for every accepted buffer size, the
phase protocol has split the accepted tasks into ranges as `Partition` states.
-/
theorem phase_protocol_partitions
    (N : BufferSize width)
    (buffer : Nat → Cell)
    (state : State Cell Waker)
    (reachable : Reachable N buffer state) :
    Partition N state :=
  reachable.phaseInvariant.partition

/-- The smallest buffer `local_queue` accepts. -/
def smallestBuffer : BufferSize .w64 :=
  .ofLog .w64 6 (by decide) (by decide)

/-- Two tasks, the first range bounded between their calls. -/
def twoRangesRun : List (Action (Option Nat) Nat) :=
  [.call fun _ => some 7, .owner, .owner, .owner, .owner, .owner, .owner,
    .finish none, .setBounds 0,
    .call fun _ => some 8, .owner, .owner, .owner, .owner, .owner]

/-- A run with a bounded and an unbounded range is split as stated. -/
theorem phase_protocol_partitions_twoRanges :
    ∃ state,
      TransitionSystem.execute (step smallestBuffer)
          (initial fun _ => none) twoRangesRun =
        some state ∧
      state.accepted = 2 ∧
      state.handles.length = 2 ∧
      (state.buffer 0, state.buffer 1) = (some 7, some 8) ∧
      Partition smallestBuffer state := by
  have performed :
      ((TransitionSystem.execute (step smallestBuffer)
          (initial fun _ => none) twoRangesRun).map
        fun state =>
          ((state.accepted, state.handles.length),
            (state.buffer 0, state.buffer 1))) =
        some ((2, 2), (some 7, some 8)) := by
    decide +kernel
  obtain ⟨state, reached, shape⟩ := Option.map_eq_some_iff.mp performed
  simp only [Prod.mk.injEq] at shape
  obtain ⟨⟨accepted, handles⟩, first, second⟩ := shape
  exact ⟨state, reached, accepted, handles, by rw [first, second],
    phase_protocol_partitions smallestBuffer _ state
      (TransitionSystem.Reachable.start.execute reached)⟩

end StackQueue.Queue
