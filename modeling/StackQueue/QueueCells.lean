import StackQueue.CircularBuffer
import StackQueue.QueueWindow

namespace StackQueue.Queue

/-!
# The cells of a range

`asSlices` is `TaskAssignment::as_slices` and `BoundedRange::as_slices`: two
slices of the buffer cut from the raw counters of a bounded range.  While the
range is live they list the cells of its positions in order, and the cell of
each of its positions belongs to that position alone: the owner neither has
reused it nor is about to.
-/

variable {width : PointerWidth} {Cell Waker : Type}

/-- `as_slices`: the indices of the two slices of a bounded range. -/
def asSlices
    (N : BufferSize width)
    (range : CounterRange) :
    List Nat × List Nat :=
  let start := range.start &&& (N.size - 1)
  let stop := range.stop &&& (N.size - 1)
  if stop > start then
    (List.range' start (stop - start), [])
  else
    (List.range' start (N.size - start), List.range stop)

/-- `tasks` and `iter`: the indices of both slices, one after the other. -/
def taskIndices
    (N : BufferSize width)
    (range : CounterRange) :
    List Nat :=
  (asSlices N range).1 ++ (asSlices N range).2

/-- The counters of a bounded handle. -/
def Handle.range? (handle : Handle) : Option CounterRange :=
  match handle.stage with
  | .bounded range => some range
  | _ => none

/-- A bounded range is found among the intervals of all ranges. -/
theorem State.spans_of_bounded
    {state : State Cell Waker}
    {i : Nat}
    {handle : Handle}
    (found : state.handles[i]? = some handle)
    (bounded : handle.isUnbounded = false) :
    state.spans[i]? = some ⟨handle.first, handle.last⟩ := by
  rw [State.spans, List.getElem?_map, found, Option.map_some,
    Handle.span_of_bounded bounded]

namespace PhaseInvariant

variable
    {N : BufferSize width}
    {state : State Cell Waker}

/-- A bounded range holds at least one task, and accepted tasks only. -/
theorem bounded_positions
    (phase : PhaseInvariant N state)
    {handle : Handle}
    (member : handle ∈ state.handles)
    (bounded : handle.isUnbounded = false) :
    handle.first < handle.last ∧ handle.last ≤ state.accepted := by
  have bounds :=
    phase.chain.bounds
      (List.mem_map_of_mem (f := Handle.span state.covered) member)
  rw [Handle.span_of_bounded bounded] at bounds
  exact ⟨bounds.2.1, Nat.le_trans bounds.2.2 phase.covered_le_accepted⟩

/-- No position belongs to two bounded ranges. -/
theorem bounded_unique
    (phase : PhaseInvariant N state)
    {i j position : Nat}
    {first second : Handle}
    (atFirst : state.handles[i]? = some first)
    (atSecond : state.handles[j]? = some second)
    (firstBounded : first.isUnbounded = false)
    (secondBounded : second.isUnbounded = false)
    (inFirst : first.first ≤ position ∧ position < first.last)
    (inSecond : second.first ≤ position ∧ position < second.last) :
    i = j := by
  have firstSpan := State.spans_of_bounded atFirst firstBounded
  have secondSpan := State.spans_of_bounded atSecond secondBounded
  exact phase.chain.covers_unique firstSpan secondSpan inFirst inSecond

/-- The bounded ranges end before the unbounded one begins. -/
theorem last_le_first
    (phase : PhaseInvariant N state)
    {i : Nat}
    {unbounded bounded : Handle}
    (atUnbounded : state.handles[i]? = some unbounded)
    (isUnbounded : unbounded.isUnbounded = true)
    (member : bounded ∈ state.handles)
    (isBounded : bounded.isUnbounded = false) :
    bounded.last ≤ unbounded.first := by
  obtain ⟨j, atBounded⟩ := List.getElem?_of_mem member
  have atEnd := phase.onlyLast i unbounded atUnbounded isUnbounded
  obtain ⟨inBounds, _⟩ := List.getElem?_eq_some_iff.mp atBounded
  have differs : j ≠ i := by
    intro same
    rw [same, atUnbounded] at atBounded
    cases atBounded
    rw [isUnbounded] at isBounded
    cases isBounded
  have earlier := State.spans_of_bounded atBounded isBounded
  have later :
      state.spans[i]? = some (Handle.span state.covered unbounded) := by
    rw [State.spans, List.getElem?_map, atUnbounded]
    rfl
  exact phase.chain.ordered earlier later (by omega)

/-- The slices of a range of at most one buffer list its cells in order. -/
theorem taskIndices_eq
    (phase : PhaseInvariant N state)
    {handle : Handle}
    {range : CounterRange}
    (member : handle ∈ state.handles)
    (stage : handle.stage = .bounded range)
    (near : handle.last ≤ handle.first + N.size) :
    taskIndices N range =
      CircularBuffer.window N.size handle.first handle.last := by
  have counters := phase.counters handle member range stage
  have bounded : handle.isUnbounded = false := by
    simp [Handle.isUnbounded, stage]
  have nonempty := (phase.bounded_positions member bounded).1
  subst counters
  rw [← CircularBuffer.slices_eq_window nonempty near]
  simp only [taskIndices, asSlices, CircularBuffer.slices,
    N.and_size_sub_one, N.mod_counter_mod]

end PhaseInvariant

/-! ## The latest positions -/

/-- The owner has written the cell of the next position. -/
def Owner.isAdding : Owner Cell → Bool
  | .adding _ => true
  | _ => false

/-- The cell of the position has not been written again since. -/
def State.InWindow
    (N : BufferSize width)
    (state : State Cell Waker)
    (position : Nat) :
    Prop :=
  state.accepted ≤ position + N.size ∧
    (state.owner.isAdding = true →
      state.accepted < position + N.size)

/-- The owner writes to the cell of the next position. -/
theorem PhaseInvariant.writing_index
    {N : BufferSize width}
    {state : State Cell Waker}
    (phase : PhaseInvariant N state)
    {write : Cell → Cell}
    {index : Nat}
    (at_ : state.owner = .writing write index) :
    index = state.accepted % N.size := by
  have owner := phase.owner
  rw [at_] at owner
  exact owner.1

/-- The cell that was written last is the cell of the next position. -/
theorem PhaseInvariant.adding_index
    {N : BufferSize width}
    {state : State Cell Waker}
    (phase : PhaseInvariant N state)
    {index : Nat}
    (at_ : state.owner = .adding index) :
    index = state.accepted % N.size := by
  have owner := phase.owner
  rw [at_] at owner
  exact owner.1

/-- The window depends on the accepted tasks and on a write in progress. -/
theorem State.InWindow.of_same
    {N : BufferSize width}
    {state after : State Cell Waker}
    {position : Nat}
    (inWindow : after.InWindow N position)
    (cells : after.cells = state.cells)
    (adding :
      ∀ index,
        state.owner = .adding index →
        after.owner.isAdding = true) :
    state.InWindow N position := by
  obtain ⟨near, strict⟩ := inWindow
  rw [State.accepted, cells] at near strict
  refine ⟨near, fun isAdding => strict ?_⟩
  cases at_ : state.owner with
  | adding index =>
      exact adding index at_
  | _ =>
      rw [at_] at isAdding
      cases isAdding

/-- A write removes the position from the window whose cell it overwrites. -/
theorem State.InWindow.of_write
    {N : BufferSize width}
    {state after : State Cell Waker}
    (phase : PhaseInvariant N state)
    {write : Cell → Cell}
    {index position : Nat}
    (at_ : state.owner = .writing write index)
    (cells : after.cells = state.cells)
    (owner : after.owner = .adding index)
    (inWindow : after.InWindow N position)
    (accepted : position < state.accepted) :
    position % N.size ≠ index ∧ state.InWindow N position := by
  constructor
  · have strict := inWindow.2 (by rw [owner]; rfl)
    rw [State.accepted, cells] at strict
    rw [phase.writing_index at_]
    exact CircularBuffer.mod_ne_of_window accepted strict
  · refine inWindow.of_same cells fun other isAdding => ?_
    rw [at_] at isAdding
    cases isAdding

/-- Accepting a task moves the window on. -/
theorem State.InWindow.of_add
    {N : BufferSize width}
    {state after : State Cell Waker}
    {position : Nat}
    (inWindow : after.InWindow N position)
    (accepted : after.accepted = state.accepted + 1) :
    state.InWindow N position := by
  have strict : state.accepted < position + N.size := by
    rw [← Nat.succ_le_iff, Nat.succ_eq_add_one, ← accepted]
    exact inWindow.1
  exact ⟨Nat.le_of_lt strict, fun _ => strict⟩

/-- Different positions of the window have different cells. -/
theorem State.InWindow.unique
    {N : BufferSize width}
    {state : State Cell Waker}
    {first second : Nat}
    (firstInWindow : state.InWindow N first)
    (secondInWindow : state.InWindow N second)
    (firstAccepted : first < state.accepted)
    (secondAccepted : second < state.accepted)
    (sameCell : first % N.size = second % N.size) :
    first = second := by
  obtain ⟨firstNear, _⟩ := firstInWindow
  obtain ⟨secondNear, _⟩ := secondInWindow
  rcases Nat.lt_trichotomy first second with before | same | later
  · exact (CircularBuffer.mod_ne_of_window before (by omega) sameCell).elim
  · exact same
  · exact (CircularBuffer.mod_ne_of_window later (by omega) sameCell.symm).elim

/-- While the next cell is written, it is no cell of the window. -/
theorem State.InWindow.not_adding
    {N : BufferSize width}
    {state : State Cell Waker}
    {position index : Nat}
    (phase : PhaseInvariant N state)
    (at_ : state.owner = .adding index)
    (inWindow : state.InWindow N position)
    (accepted : position < state.accepted) :
    position % N.size ≠ index := by
  have strict := inWindow.2 (by rw [at_]; rfl)
  rw [phase.adding_index at_]
  exact CircularBuffer.mod_ne_of_window accepted strict

/-- Every cell written so far is of the window, or was written last. -/
theorem PhaseInvariant.exists_inWindow
    {N : BufferSize width}
    {state : State Cell Waker}
    (phase : PhaseInvariant N state)
    {earlier : Nat}
    (accepted : earlier < state.accepted) :
    (∃ position,
        position < state.accepted ∧
          state.InWindow N position ∧
          position % N.size = earlier % N.size) ∨
      state.owner = .adding (earlier % N.size) := by
  have positive := N.size_pos
  have laps := Nat.div_add_mod (state.accepted - 1 - earlier) N.size
  have rest := Nat.mod_lt (state.accepted - 1 - earlier) positive
  let latest :=
    earlier + N.size * ((state.accepted - 1 - earlier) / N.size)
  have sameCell : latest % N.size = earlier % N.size :=
    Nat.add_mul_mod_self_left _ _ _
  have below : latest < state.accepted := by
    change earlier + _ < _
    omega
  have near : state.accepted ≤ latest + N.size := by
    change _ ≤ earlier + _ + _
    omega
  by_cases strict :
    state.owner.isAdding = true → state.accepted < latest + N.size
  · exact Or.inl ⟨latest, below, ⟨near, strict⟩, sameCell⟩
  · right
    simp only [Classical.not_imp] at strict
    obtain ⟨adding, atEnd⟩ := strict
    have owner := phase.owner
    cases at_ : state.owner with
    | adding index =>
        rw [at_] at owner
        have isEnd : state.accepted = latest + N.size := by omega
        rw [owner.1, isEnd, Nat.add_mod_right, sameCell]
    | _ =>
        rw [at_] at adding
        cases adding

/-- Every live range begins in the window. -/
def State.LiveInWindow
    (N : BufferSize width)
    (state : State Cell Waker) :
    Prop :=
  ∀ start ∈ state.liveStarts, state.InWindow N start

/-! ## Ranges in the window -/

namespace State.LiveInWindow

variable
    {N : BufferSize width}
    {state after : State Cell Waker}

/-- The positions of a live range are in the window. -/
theorem inWindow
    (window : state.LiveInWindow N)
    {handle : Handle}
    (member : handle ∈ state.handles)
    (live : handle.isLive = true)
    {position : Nat}
    (begun : handle.first ≤ position) :
    state.InWindow N position := by
  have isStart : handle.first ∈ state.liveStarts :=
    List.mem_map_of_mem (List.mem_filter.mpr ⟨member, live⟩)
  obtain ⟨near, strict⟩ := window handle.first isStart
  exact ⟨by omega, fun adding => by have := strict adding; omega⟩

/-- The slices of a live bounded range list its cells in order. -/
theorem taskIndices_of_live
    (window : state.LiveInWindow N)
    (phase : PhaseInvariant N state)
    {handle : Handle}
    {range : CounterRange}
    (member : handle ∈ state.handles)
    (stage : handle.stage = .bounded range) :
    taskIndices N range =
      CircularBuffer.window N.size handle.first handle.last := by
  have live : handle.isLive = true := by
    simp [Handle.isLive, stage]
  have bounded : handle.isUnbounded = false := by
    simp [Handle.isUnbounded, stage]
  have near := (window.inWindow member live (Nat.le_refl _)).1
  have upTo := (phase.bounded_positions member bounded).2
  exact phase.taskIndices_eq member stage (Nat.le_trans upTo near)

theorem initial
    {buffer : Nat → Cell} :
    (Queue.initial buffer : State Cell Waker).LiveInWindow N := by
  intro start isStart
  cases isStart

/-- A step that starts no range and accepts no task. -/
theorem of_fewer
    (window : state.LiveInWindow N)
    (fewer : ∀ start ∈ after.liveStarts, start ∈ state.liveStarts)
    (cells : after.cells = state.cells)
    (adding :
      after.owner.isAdding = true → state.owner.isAdding = true) :
    after.LiveInWindow N := by
  intro start isStart
  obtain ⟨near, strict⟩ := window start (fewer start isStart)
  rw [InWindow, accepted, cells]
  exact ⟨near, fun isAdding => strict (adding isAdding)⟩

/-- The owner's steps keep the live ranges in the window. -/
theorem ownerMove
    (window : state.LiveInWindow N)
    (phase : PhaseInvariant N state)
    (free : state.WritesFreeCell N)
    (moved : OwnerMove N state after) :
    after.LiveInWindow N := by
  cases moved with
  | write at_ =>
      intro start isStart
      obtain ⟨handle, member, isFirst⟩ := List.mem_map.mp isStart
      obtain ⟨member, live⟩ := List.mem_filter.mp member
      have below := (free _ _ at_ handle member live).1
      rw [isFirst] at below
      exact ⟨Nat.le_of_lt below, fun _ => below⟩
  | add at_ =>
      intro start isStart
      have strict := (window start isStart).2 (by rw [at_]; rfl)
      refine ⟨?_, fun adding => by cases adding⟩
      simp only [accepted, List.length_append, List.length_singleton]
      exact strict
  | occupy at_ =>
      have owner := phase.owner
      rw [at_] at owner
      obtain ⟨position, _, newest, _⟩ := owner
      intro start isStart
      rw [liveStarts_occupy newest rfl, List.mem_append,
        List.mem_singleton] at isStart
      refine ⟨?_, fun adding => by cases adding⟩
      change state.accepted ≤ _
      rcases isStart with earlier | isNew
      · exact (window start earlier).1
      · have := N.size_pos
        omega
  | enterAtBoundary _ _ | enterInside _ _ | cachedFree _ _
  | cachedBusy _ _ | loadedFree _ _ | loadedBusy _ _ | replaceJoined _ _
  | replaceOpening _ _ =>
      exact window.of_fewer (fun _ => id) rfl
        fun adding => by cases adding

/-- Every step keeps them there, as long as it writes no live cell. -/
theorem move
    (window : state.LiveInWindow N)
    (phase : PhaseInvariant N state)
    {action : Action Cell Waker}
    (free : action = .owner → state.WritesFreeCell N)
    (moved : Move N state action after) :
    after.LiveInWindow N := by
  cases moved with
  | owner moved =>
      exact window.ownerMove phase (free rfl) moved
  | call at_ | finish at_ | register at_ =>
      exact window.of_fewer (fun _ => id) rfl
        fun adding => by cases adding
  | setBounds found stage =>
      refine window.of_fewer (fun start isStart => ?_) rfl id
      rw [liveStarts_setBounds found stage] at isStart
      exact isStart
  | deoccupyRegion found stage =>
      refine window.of_fewer (fun start isStart => ?_) rfl id
      exact (liveStarts_deoccupyRegion found stage).mem_iff.mpr
        (List.mem_cons_of_mem _ isStart)
  | retry found stage =>
      exact window
  | @steal i batchLimit handle found stage =>
      obtain ⟨owner, _, cells⟩ :=
        (Move.frame (.steal found stage : Move N state _ _) rfl)
      refine window.of_fewer (fun start isStart => ?_) cells ?_
      · rw [liveStarts_steal found stage] at isStart
        exact isStart
      · rw [owner]
        exact id
  | touch =>
      exact window.of_fewer (fun _ => id) rfl id

end State.LiveInWindow

namespace OccupancyInvariant

variable
    {N : BufferSize .w64}
    {state : State Cell Waker}

/-- A live range begins at most one buffer before the next position. -/
theorem accepted_le_first_add
    (invariant : OccupancyInvariant N state)
    {handle : Handle}
    (member : handle ∈ state.handles)
    (live : handle.isLive = true) :
    state.accepted ≤ handle.first + N.size := by
  have isStart : handle.first ∈ state.liveStarts :=
    List.mem_map_of_mem (List.mem_filter.mpr ⟨member, live⟩)
  have := invariant.window handle.first isStart
  have := regionStart_le N handle.first
  omega

/-- Past the occupancy check, a live range leaves room for one more task. -/
theorem accepted_lt_first_add
    (invariant : OccupancyInvariant N state)
    (admitted : state.owner.isAdmitted = true)
    {handle : Handle}
    (member : handle ∈ state.handles)
    (live : handle.isLive = true) :
    state.accepted < handle.first + N.size := by
  have isStart : handle.first ∈ state.liveStarts :=
    List.mem_map_of_mem (List.mem_filter.mpr ⟨member, live⟩)
  have := invariant.admitted admitted handle.first isStart
  have := regionStart_le N handle.first
  omega

/-- The live ranges begin within the window. -/
theorem liveInWindow
    (invariant : OccupancyInvariant N state) :
    state.LiveInWindow N := by
  intro start isStart
  have below := regionStart_le N start
  constructor
  · have := invariant.window start isStart
    omega
  · intro adding
    have admitted : state.owner.isAdmitted = true := by
      cases at_ : state.owner <;> rw [at_] at adding <;> trivial
    have := invariant.admitted admitted start isStart
    omega

end OccupancyInvariant

end StackQueue.Queue
