import StackQueue.NarrowOccupancy
import StackQueue.QueueCells

namespace StackQueue

/-!
# The contents of the accepted positions

A buffer is safe when no run of the queue overwrites a live range; on either
pointer width that is a bound on its size.  In a safe buffer the cell of a
live position keeps what the accepting call wrote there.  `Contents` says so
of any list of written contents, for as long as nobody but the owner changes a
cell; machines with tasks instantiate it.
-/

/-- The buffer is small enough for the occupancy word of its target. -/
def BufferSize.IsSafe {width : PointerWidth} (N : BufferSize width) : Prop :=
  match width with
  | .w64 => N.size ≤ 1024
  | .w32 => N.size ≤ 512

namespace Queue

open IntervalChain

variable {width : PointerWidth} {Cell Waker : Type}

theorem smallestBuffer_isSafe : smallestBuffer.IsSafe := by
  change smallestBuffer.size ≤ 1024
  decide

/-- No run of a safe buffer writes to a live cell. -/
theorem Reachable.writesFreeCell
    {N : BufferSize width}
    {buffer : Nat → Cell}
    {state : State Cell Waker}
    (safe : N.IsSafe)
    (reachable : Reachable N buffer state) :
    state.WritesFreeCell N := by
  cases width with
  | w64 =>
      exact
        (Reachable.occupancyInvariant safe reachable).writesFreeCell
          (Reachable.phaseInvariant reachable)
  | w32 =>
      exact
        (Reachable.narrowInvariant safe reachable).window.writesFreeCell
          (Reachable.phaseInvariant reachable)

/-- In a safe buffer the live ranges are in the window. -/
theorem Reachable.liveInWindow
    {N : BufferSize width}
    {buffer : Nat → Cell}
    {state : State Cell Waker}
    (safe : N.IsSafe)
    (reachable : Reachable N buffer state) :
    state.LiveInWindow N := by
  induction reachable with
  | start =>
      exact .initial
  | next earlier _ taken inductionHypothesis =>
      exact inductionHypothesis.move (Reachable.phaseInvariant earlier)
        (fun _ => Reachable.writesFreeCell safe earlier) (step_move taken)

/-- The action is the owner's next access. -/
def Action.isOwner : Action Cell Waker → Bool
  | .owner => true
  | _ => false

/-- The action changes a cell from outside the owner's calls. -/
def Action.isTouch : Action Cell Waker → Bool
  | .touch _ _ => true
  | _ => false

/-- What the owner's next access accepts. -/
def State.accepting (state : State Cell Waker) : List Cell :=
  match state.owner with
  | .adding index => [state.buffer index]
  | _ => []

/-- The contents of the accepted positions, and where they are found. -/
structure Contents
    (N : BufferSize width)
    (state : State Cell Waker)
    (contents : List Cell) : Prop where
  count : contents.length = state.accepted
  stored :
    ∀ (position : Nat) (cell : Cell),
      contents[position]? = some cell →
      state.InWindow N position →
      state.buffer (position % N.size) = cell

namespace Contents

variable
    {N : BufferSize width}
    {state after : State Cell Waker}
    {contents : List Cell}

theorem initial
    {buffer : Nat → Cell} :
    Contents N (Queue.initial buffer : State Cell Waker) [] where
  count := rfl
  stored := by
    intro position cell found
    cases found

theorem accepted_of_found
    (stores : Contents N state contents)
    {position : Nat}
    {cell : Cell}
    (found : contents[position]? = some cell) :
    position < state.accepted := by
  rw [← stores.count]
  exact (List.getElem?_eq_some_iff.mp found).1

/-- A step that writes no cell and accepts nothing. -/
theorem of_same
    (stores : Contents N state contents)
    (buffer : after.buffer = state.buffer)
    (cells : after.cells = state.cells)
    (adding :
      ∀ index,
        state.owner = .adding index →
        after.owner.isAdding = true) :
    Contents N after contents where
  count := by
    rw [State.accepted, cells]
    exact stores.count
  stored := by
    intro position cell found inWindow
    rw [buffer]
    exact stores.stored position cell found
      (inWindow.of_same cells adding)

/-- The write goes to a cell of no position of the window. -/
theorem write
    (stores : Contents N state contents)
    (phase : PhaseInvariant N state)
    {update : Cell → Cell}
    {index : Nat}
    (at_ : state.owner = .writing update index)
    (buffer : after.buffer = (state.updateCell index update).buffer)
    (cells : after.cells = state.cells)
    (owner : after.owner = .adding index) :
    Contents N after contents where
  count := by
    rw [State.accepted, cells]
    exact stores.count
  stored := by
    intro position cell found inWindow
    obtain ⟨differs, before⟩ :=
      inWindow.of_write phase at_ cells owner
        (stores.accepted_of_found found)
    rw [buffer, State.updateCell_of_ne state update differs]
    exact stores.stored position cell found before

/-- The `fetch_add` accepts what was written last. -/
theorem add
    (stores : Contents N state contents)
    (phase : PhaseInvariant N state)
    {index : Nat}
    (at_ : state.owner = .adding index)
    (buffer : after.buffer = state.buffer)
    (accepted : after.accepted = state.accepted + 1) :
    Contents N after (contents ++ [state.buffer index]) where
  count := by
    rw [List.length_append, stores.count, accepted]
    rfl
  stored := by
    intro position cell found inWindow
    rw [buffer]
    rcases ListUpdate.getElem?_concat_cases found with
      before | ⟨isLast, isNew⟩
    · exact stores.stored position cell before
        (inWindow.of_add accepted)
    · rw [isNew, isLast, stores.count, phase.adding_index at_]

/-- The owner's moves keep the contents where they are. -/
theorem ownerMove
    (stores : Contents N state contents)
    (phase : PhaseInvariant N state)
    (moved : OwnerMove N state after) :
    Contents N after (contents ++ state.accepting) := by
  cases moved with
  | write at_ =>
      rw [State.accepting, at_, List.append_nil]
      exact stores.write phase at_ rfl rfl rfl
  | add at_ =>
      rw [State.accepting, at_]
      exact stores.add phase at_ rfl List.length_append
  | enterAtBoundary at_ _ | enterInside at_ _ | cachedFree at_ _
  | cachedBusy at_ _ | loadedFree at_ _ | loadedBusy at_ _
  | replaceJoined at_ _ | replaceOpening at_ _ | occupy at_ =>
      rw [State.accepting, at_, List.append_nil]
      refine stores.of_same rfl rfl fun index adding => ?_
      rw [at_] at adding
      cases adding

/-- Nothing else writes a cell or accepts a task. -/
theorem move
    {action : Action Cell Waker}
    (stores : Contents N state contents)
    (notOwner : action.isOwner = false)
    (untouched : action.isTouch = false)
    (moved : Move N state action after) :
    Contents N after contents := by
  cases moved with
  | owner moved => cases notOwner
  | touch => cases untouched
  | call at_ | finish at_ | register at_ =>
      refine stores.of_same rfl rfl fun index adding => ?_
      rw [at_] at adding
      cases adding
  | setBounds found stage | deoccupyRegion found stage
  | retry found stage =>
      refine stores.of_same rfl rfl fun index adding => ?_
      change state.owner.isAdding = true
      rw [adding]
      rfl
  | steal found stage =>
      obtain ⟨owner, buffer, cells⟩ :=
        (Move.steal (N := N) found stage).frame rfl
      refine stores.of_same buffer cells fun index adding => ?_
      rw [owner, adding]
      rfl

/-- The cells of a live range hold the contents of its positions. -/
theorem of_live
    (stores : Contents N state contents)
    (window : state.LiveInWindow N)
    {handle : Handle}
    (member : handle ∈ state.handles)
    (live : handle.isLive = true)
    {position : Nat}
    (begun : handle.first ≤ position)
    {cell : Cell}
    (found : contents[position]? = some cell) :
    state.buffer (position % N.size) = cell :=
  stores.stored position cell found
    (window.inWindow member live begun)

/-- The slices of a live bounded range show its contents in order. -/
theorem slices_of_live
    (stores : Contents N state contents)
    (window : state.LiveInWindow N)
    (phase : PhaseInvariant N state)
    {handle : Handle}
    {range : CounterRange}
    (member : handle ∈ state.handles)
    (stage : handle.stage = .bounded range) :
    (taskIndices N range).map state.buffer =
      slice contents ⟨handle.first, handle.last⟩ := by
  have bounded : handle.isUnbounded = false := by
    simp [Handle.isUnbounded, stage]
  have live : handle.isLive = true := by
    simp [Handle.isLive, stage]
  obtain ⟨_, upTo⟩ := phase.bounded_positions member bounded
  rw [window.taskIndices_of_live phase member stage]
  apply List.ext_getElem?
  intro i
  by_cases within : i < handle.last - handle.first
  · have accepted : handle.first + i < contents.length := by
      rw [stores.count]
      omega
    have found := List.getElem?_eq_getElem accepted
    have stored :=
      stores.of_live window member live (Nat.le_add_right _ i) found
    rw [getElem?_slice, if_pos (by simpa using within), found,
      CircularBuffer.window, List.map_map, List.getElem?_map,
      List.getElem?_range' within]
    simpa using stored
  · rw [List.getElem?_eq_none, List.getElem?_eq_none]
    · rw [slice, List.length_take]
      exact Nat.le_trans (Nat.min_le_left _ _) (Nat.le_of_not_lt within)
    · rw [List.length_map, CircularBuffer.length_window]
      exact Nat.le_of_not_lt within

end Contents

end Queue

end StackQueue
