import Mathlib.Logic.Function.Basic
import StackQueue.IntervalChain
import StackQueue.SlotWord
import StackQueue.TransitionSystem

namespace StackQueue.Queue

open IntervalChain

/-!
# The queue as a step machine

`StackQueue` and `Inner` of `queue.rs`, with the range bounding of
`assignment.rs`, as an interleaving of single accesses to shared memory.  The
owner thread runs `push` or `enqueue` one access at a time; between any two of
its steps other threads may bound a range (`fetch_xor` on the shared slot),
release it (`fetch_sub` on the shared occupancy) or take wakers from the
pending queue.  Accesses are sequentially consistent.

`push` and `enqueue` differ only in what they write into the buffer cell, so a
call carries that write as a function.  The fields `first` and `last` of a
handle, `cells` and `unboundedAtAdd` are history: no step reads them to decide
what the code does.
-/

/-- A `Range<usize>` of raw index counters. -/
structure CounterRange where
  start : Nat
  stop : Nat
  deriving Repr, DecidableEq

/-- How far the owner of a range has taken it. -/
inductive Stage where
  /-- `PendingAssignment` or `UnboundedRange`: only the start is known. -/
  | unbounded
  /-- `TaskAssignment`, `BoundedRange` or `BufferIter`. -/
  | bounded (range : CounterRange)
  /-- Inside `deoccupy_region`, in the loop that wakes pending tasks. -/
  | draining (batchLimit : Nat)
  /-- `deoccupy_region` has returned. -/
  | released
  deriving Repr, DecidableEq

/--
A range handle.  `first` and `last` are its true positions, counted without
wrap-around; `last` is set when the range is bounded.
-/
structure Handle where
  baseSlot : Nat
  stage : Stage
  first : Nat
  last : Nat
  deriving Repr, DecidableEq

/-- What `push` or `enqueue` returns. -/
inductive Admission where
  /-- `Err(task)` or `Err(QueueFull)`. -/
  | queueFull
  /-- `Ok(None)`: the task joins the current unbounded range. -/
  | joined
  /-- `Ok(Some(_))`: the task opens a new range. -/
  | opened (handle : Nat)
  deriving Repr, DecidableEq

/-- Where the owner thread stands within a call of `push` or `enqueue`. -/
inductive Owner (Cell : Type) where
  | idle
  | entered (write : Cell → Cell)
  | checking (write : Cell → Cell) (index : Nat)
  | loading (write : Cell → Cell) (index : Nat)
  | writing (write : Cell → Cell) (index : Nat)
  | adding (index : Nat)
  | replacing (index baseSlot : Nat)
  | occupying (index baseSlot : Nat)
  | returning (admission : Admission)

/-- What a call is about to return. -/
def Owner.admission? {Cell : Type} : Owner Cell → Option Admission
  | .returning admission => some admission
  | .idle | .entered _ | .checking _ _ | .loading _ _ | .writing _ _
  | .adding _ | .replacing _ _ | .occupying _ _ => none

theorem Owner.admission?_eq_some_iff
    {Cell : Type}
    {owner : Owner Cell}
    {admission : Admission} :
    owner.admission? = some admission ↔ owner = .returning admission := by
  cases owner <;> simp [admission?]

/-- The fields of `StackQueue` and `Inner`, the owner thread and the handles. -/
structure State (Cell Waker : Type) where
  /-- `StackQueue::slot`, private to the owner. -/
  slot : Nat
  /-- `StackQueue::occupancy`, the owner's copy. -/
  occupancy : Nat
  /-- `Inner::slot`. -/
  innerSlot : Nat
  /-- `Inner::occupancy`. -/
  innerOccupancy : Nat
  /-- `Inner::buffer`. -/
  buffer : Nat → Cell
  /-- The FIFO behind `StackQueue::pending` and `Inner::stealer`. -/
  pending : List Waker
  owner : Owner Cell
  /-- Every handle returned so far, oldest first. -/
  handles : List Handle
  /-- The buffer index of each accepted task, in order of acceptance. -/
  cells : List Nat
  /-- Whether an unbounded range existed at the latest `fetch_add`. -/
  unboundedAtAdd : Bool

/-- One step of one thread. -/
inductive Action (Cell Waker : Type) where
  /-- The owner calls `push` or `enqueue`. -/
  | call (write : Cell → Cell)
  /-- The owner's next access within the call. -/
  | owner
  /-- The call returns; after a refusal the caller may register a waker. -/
  | finish (waker : Option Waker)
  /-- `set_bounds` or `set_assignment_bounds` of a handle. -/
  | setBounds (handle : Nat)
  /-- The `fetch_sub` of `deoccupy_region` for a handle's range. -/
  | deoccupyRegion (handle : Nat)
  /-- One `steal` of the wake loop; it may answer `Retry`. -/
  | steal (handle : Nat) (retry : Bool)
  /-- Code that holds a range, or points into a cell, changes that cell. -/
  | touch (index : Nat) (update : Cell → Cell)

namespace Handle

/-- The range has not been bounded yet. -/
def isUnbounded (handle : Handle) : Bool :=
  handle.stage = .unbounded

/-- The range is still counted in the occupancy of its region. -/
def isLive (handle : Handle) : Bool :=
  match handle.stage with
  | .unbounded | .bounded _ => true
  | .draining _ | .released => false

/-- The positions of a range; an unbounded one extends as far as `covered`. -/
def span (covered : Nat) (handle : Handle) : Interval :=
  ⟨handle.first, if handle.isUnbounded then covered else handle.last⟩

end Handle

variable {width : PointerWidth} {Cell Waker : Type}

/-- `StackQueue::default` over a given uninitialised buffer. -/
def initial (buffer : Nat → Cell) : State Cell Waker where
  slot := phaseFlag
  occupancy := 0
  innerSlot := 0
  innerOccupancy := 0
  buffer := buffer
  pending := []
  owner := .idle
  handles := []
  cells := []
  unboundedAtAdd := false

namespace State

/-- The number of tasks accepted so far. -/
def accepted (state : State Cell Waker) : Nat :=
  state.cells.length

/-- Some handle has not been bounded. -/
def hasUnbounded (state : State Cell Waker) : Bool :=
  state.handles.any Handle.isUnbounded

/-- `current_write_index`. -/
def currentWriteIndex
    (N : BufferSize width)
    (state : State Cell Waker) :
    Nat :=
  slotIndex width N.size state.slot

/-- Change one cell of the buffer. -/
def updateCell
    (state : State Cell Waker)
    (index : Nat)
    (update : Cell → Cell) :
    State Cell Waker :=
  { state with
    buffer :=
      Function.update state.buffer index (update (state.buffer index)) }

theorem updateCell_self
    (state : State Cell Waker)
    (index : Nat)
    (update : Cell → Cell) :
    (state.updateCell index update).buffer index =
      update (state.buffer index) :=
  Function.update_self index _ state.buffer

theorem updateCell_of_ne
    (state : State Cell Waker)
    {index cell : Nat}
    (update : Cell → Cell)
    (differs : cell ≠ index) :
    (state.updateCell index update).buffer cell = state.buffer cell :=
  Function.update_of_ne differs _ state.buffer

/-- Replace one handle. -/
def setHandle
    (state : State Cell Waker)
    (index : Nat)
    (handle : Handle) :
    State Cell Waker :=
  { state with handles := state.handles.set index handle }

end State

/--
The owner's accesses within `push` and `enqueue`, including
`check_regional_occupancy` and `occupy_region`.
-/
def ownerStep
    (N : BufferSize width)
    (state : State Cell Waker) :
    Option (State Cell Waker) :=
  match state.owner with
  | .entered write =>
      let writeIndex := state.currentWriteIndex N
      if writeIndex &&& (regionSize width N.size - 1) = 0 then
        some { state with owner := .checking write writeIndex }
      else
        some { state with owner := .writing write writeIndex }
  | .checking write index =>
      if state.occupancy &&& regionMask width N.size index = 0 then
        some { state with owner := .writing write index }
      else
        some { state with owner := .loading write index }
  | .loading write index =>
      if state.innerOccupancy &&& regionMask width N.size index = 0 then
        some {
          state with
          occupancy := state.innerOccupancy
          owner := .writing write index }
      else
        some {
          state with
          occupancy := state.innerOccupancy
          owner := .returning .queueFull }
  | .writing write index =>
      some { state.updateCell index write with owner := .adding index }
  | .adding index =>
      some {
        state with
        innerSlot :=
          wrappingAdd width state.innerSlot (1 <<< width.indexShift)
        owner := .replacing index state.innerSlot
        cells := state.cells ++ [index]
        unboundedAtAdd := state.hasUnbounded }
  | .replacing index baseSlot =>
      let prevSlot := state.slot
      let slot := wrappingAdd width baseSlot (1 <<< width.indexShift)
      if (baseSlot ^^^ prevSlot) &&& phaseFlag = 0 then
        some { state with slot := slot, owner := .returning .joined }
      else
        some { state with slot := slot, owner := .occupying index baseSlot }
  | .occupying index baseSlot =>
      let occupancy :=
        wrappingAdd width state.innerOccupancy
          (oneShifted width N.size index)
      some {
        state with
        innerOccupancy := occupancy
        occupancy := occupancy
        handles :=
          state.handles ++
            [⟨baseSlot, .unbounded, state.accepted - 1, 0⟩]
        owner := .returning (.opened state.handles.length) }
  | .idle | .returning _ => none

/-- `set_bounds`: the range ends where the shared slot stands. -/
def setBounds
    (width : PointerWidth)
    (state : State Cell Waker)
    (index : Nat)
    (handle : Handle) :
    State Cell Waker :=
  { state.setHandle index {
      handle with
      stage := .bounded
        ⟨handle.baseSlot >>> width.indexShift,
          state.innerSlot >>> width.indexShift⟩
      last := state.accepted } with
    innerSlot := state.innerSlot ^^^ phaseFlag }

/--
The `fetch_sub` of `deoccupy_region`, at the index `deoccupy_buffer` computes;
taking the last unit of the whole word starts the wake loop.
-/
def deoccupyRegion
    (N : BufferSize width)
    (state : State Cell Waker)
    (index : Nat)
    (handle : Handle)
    (range : CounterRange) :
    State Cell Waker :=
  let shifted := oneShifted width N.size (range.start &&& (N.size - 1))
  { state.setHandle index {
      handle with
      stage :=
        if state.innerOccupancy = shifted then
          .draining (regionSize width N.size)
        else
          .released } with
    innerOccupancy := wrappingSub width state.innerOccupancy shifted }

/-- One iteration of the wake loop, with `batchLimit` iterations left. -/
def steal
    (state : State Cell Waker)
    (index : Nat)
    (handle : Handle)
    (batchLimit : Nat) :
    State Cell Waker :=
  match state.pending with
  | [] =>
      state.setHandle index { handle with stage := .released }
  | _ :: rest =>
      { state.setHandle index {
          handle with
          stage :=
            if batchLimit - 1 = 0 then
              .released
            else
              .draining (batchLimit - 1) } with
        pending := rest }

/-- The effect of one action, `none` when it is not enabled. -/
def step
    (N : BufferSize width)
    (state : State Cell Waker) :
    Action Cell Waker → Option (State Cell Waker)
  | .call write =>
      match state.owner with
      | .idle => some { state with owner := .entered write }
      | _ => none
  | .owner =>
      ownerStep N state
  | .finish waker =>
      match state.owner, waker with
      | .returning _, none => some { state with owner := .idle }
      | .returning .queueFull, some waker =>
          some {
            state with
            owner := .idle
            pending := state.pending ++ [waker] }
      | _, _ => none
  | .setBounds index =>
      match state.handles[index]? with
      | some handle =>
          match handle.stage with
          | .unbounded => some (setBounds width state index handle)
          | _ => none
      | none => none
  | .deoccupyRegion index =>
      match state.handles[index]? with
      | some handle =>
          match handle.stage with
          | .bounded range =>
              some (deoccupyRegion N state index handle range)
          | _ => none
      | none => none
  | .steal index retry =>
      match state.handles[index]? with
      | some handle =>
          match handle.stage with
          | .draining batchLimit =>
              if retry then
                some state
              else
                some (steal state index handle batchLimit)
          | _ => none
      | none => none
  | .touch index update =>
      some (state.updateCell index update)

/-- The states of the queue's runs from `StackQueue::default`. -/
abbrev Reachable
    (N : BufferSize width)
    (buffer : Nat → Cell)
    (state : State Cell Waker) :
    Prop :=
  TransitionSystem.Reachable (step N) TransitionSystem.anyStep
    (initial buffer) state

/-! ## What one step can do -/

/-- The owner's moves, one constructor for each path through `ownerStep`. -/
inductive OwnerMove
    (N : BufferSize width)
    (state : State Cell Waker) :
    State Cell Waker → Prop where
  | enterAtBoundary
      {write : Cell → Cell}
      (at_ : state.owner = .entered write)
      (boundary :
        state.currentWriteIndex N &&& (regionSize width N.size - 1) = 0) :
      OwnerMove N state
        { state with
          owner := .checking write (state.currentWriteIndex N) }
  | enterInside
      {write : Cell → Cell}
      (at_ : state.owner = .entered write)
      (inside :
        state.currentWriteIndex N &&& (regionSize width N.size - 1) ≠ 0) :
      OwnerMove N state
        { state with
          owner := .writing write (state.currentWriteIndex N) }
  | cachedFree
      {write : Cell → Cell}
      {index : Nat}
      (at_ : state.owner = .checking write index)
      (free : state.occupancy &&& regionMask width N.size index = 0) :
      OwnerMove N state { state with owner := .writing write index }
  | cachedBusy
      {write : Cell → Cell}
      {index : Nat}
      (at_ : state.owner = .checking write index)
      (busy : state.occupancy &&& regionMask width N.size index ≠ 0) :
      OwnerMove N state { state with owner := .loading write index }
  | loadedFree
      {write : Cell → Cell}
      {index : Nat}
      (at_ : state.owner = .loading write index)
      (free : state.innerOccupancy &&& regionMask width N.size index = 0) :
      OwnerMove N state
        { state with
          occupancy := state.innerOccupancy
          owner := .writing write index }
  | loadedBusy
      {write : Cell → Cell}
      {index : Nat}
      (at_ : state.owner = .loading write index)
      (busy : state.innerOccupancy &&& regionMask width N.size index ≠ 0) :
      OwnerMove N state
        { state with
          occupancy := state.innerOccupancy
          owner := .returning .queueFull }
  | write
      {write : Cell → Cell}
      {index : Nat}
      (at_ : state.owner = .writing write index) :
      OwnerMove N state
        { state.updateCell index write with owner := .adding index }
  | add
      {index : Nat}
      (at_ : state.owner = .adding index) :
      OwnerMove N state
        { state with
          innerSlot :=
            wrappingAdd width state.innerSlot (1 <<< width.indexShift)
          owner := .replacing index state.innerSlot
          cells := state.cells ++ [index]
          unboundedAtAdd := state.hasUnbounded }
  | replaceJoined
      {index baseSlot : Nat}
      (at_ : state.owner = .replacing index baseSlot)
      (same : (baseSlot ^^^ state.slot) &&& phaseFlag = 0) :
      OwnerMove N state
        { state with
          slot := wrappingAdd width baseSlot (1 <<< width.indexShift)
          owner := .returning .joined }
  | replaceOpening
      {index baseSlot : Nat}
      (at_ : state.owner = .replacing index baseSlot)
      (differ : (baseSlot ^^^ state.slot) &&& phaseFlag ≠ 0) :
      OwnerMove N state
        { state with
          slot := wrappingAdd width baseSlot (1 <<< width.indexShift)
          owner := .occupying index baseSlot }
  | occupy
      {index baseSlot : Nat}
      (at_ : state.owner = .occupying index baseSlot) :
      OwnerMove N state
        { state with
          innerOccupancy :=
            wrappingAdd width state.innerOccupancy
              (oneShifted width N.size index)
          occupancy :=
            wrappingAdd width state.innerOccupancy
              (oneShifted width N.size index)
          handles :=
            state.handles ++
              [⟨baseSlot, .unbounded, state.accepted - 1, 0⟩]
          owner := .returning (.opened state.handles.length) }

/-- The moves of the whole system, one constructor for each kind of step. -/
inductive Move
    (N : BufferSize width)
    (state : State Cell Waker) :
    Action Cell Waker → State Cell Waker → Prop where
  | call
      {write : Cell → Cell}
      (at_ : state.owner = .idle) :
      Move N state (.call write) { state with owner := .entered write }
  | owner
      {after : State Cell Waker}
      (move : OwnerMove N state after) :
      Move N state .owner after
  | finish
      {admission : Admission}
      (at_ : state.owner = .returning admission) :
      Move N state (.finish none) { state with owner := .idle }
  | register
      {waker : Waker}
      (at_ : state.owner = .returning .queueFull) :
      Move N state (.finish (some waker))
        { state with
          owner := .idle
          pending := state.pending ++ [waker] }
  | setBounds
      {index : Nat}
      {handle : Handle}
      (found : state.handles[index]? = some handle)
      (stage : handle.stage = .unbounded) :
      Move N state (.setBounds index)
        (Queue.setBounds width state index handle)
  | deoccupyRegion
      {index : Nat}
      {handle : Handle}
      {range : CounterRange}
      (found : state.handles[index]? = some handle)
      (stage : handle.stage = .bounded range) :
      Move N state (.deoccupyRegion index)
        (Queue.deoccupyRegion N state index handle range)
  | retry
      {index batchLimit : Nat}
      {handle : Handle}
      (found : state.handles[index]? = some handle)
      (stage : handle.stage = .draining batchLimit) :
      Move N state (.steal index true) state
  | steal
      {index batchLimit : Nat}
      {handle : Handle}
      (found : state.handles[index]? = some handle)
      (stage : handle.stage = .draining batchLimit) :
      Move N state (.steal index false)
        (Queue.steal state index handle batchLimit)
  | touch
      {index : Nat}
      {update : Cell → Cell} :
      Move N state (.touch index update) (state.updateCell index update)

/-- `ownerStep` makes no other move. -/
theorem ownerStep_move
    {N : BufferSize width}
    {state after : State Cell Waker}
    (taken : ownerStep N state = some after) :
    OwnerMove N state after := by
  unfold ownerStep at taken
  split at taken
  case h_1 write at_ =>
    simp only at taken
    split at taken <;> cases taken
    case isTrue boundary => exact .enterAtBoundary at_ boundary
    case isFalse inside => exact .enterInside at_ inside
  case h_2 write index at_ =>
    split at taken <;> cases taken
    case isTrue free => exact .cachedFree at_ free
    case isFalse busy => exact .cachedBusy at_ busy
  case h_3 write index at_ =>
    split at taken <;> cases taken
    case isTrue free => exact .loadedFree at_ free
    case isFalse busy => exact .loadedBusy at_ busy
  case h_4 write index at_ =>
    cases taken
    exact .write at_
  case h_5 index at_ =>
    cases taken
    exact .add at_
  case h_6 index baseSlot at_ =>
    simp only at taken
    split at taken <;> cases taken
    case isTrue same => exact .replaceJoined at_ same
    case isFalse differ => exact .replaceOpening at_ differ
  case h_7 index baseSlot at_ =>
    cases taken
    exact .occupy at_
  all_goals cases taken

/-- Only the last access of an opening call touches the handles. -/
theorem OwnerMove.handles
    {N : BufferSize width}
    {state after : State Cell Waker}
    (moved : OwnerMove N state after) :
    after.handles = state.handles ∨
      ∃ index baseSlot,
        state.owner = .occupying index baseSlot ∧
          after.handles =
            state.handles ++
              [⟨baseSlot, .unbounded, state.accepted - 1, 0⟩] := by
  cases moved with
  | occupy at_ => exact Or.inr ⟨_, _, at_, rfl⟩
  | _ => exact Or.inl rfl

/-- `step` makes no other move. -/
theorem step_move
    {N : BufferSize width}
    {state after : State Cell Waker}
    {action : Action Cell Waker}
    (taken : step N state action = some after) :
    Move N state action after := by
  cases action with
  | call write =>
      simp only [step] at taken
      split at taken <;> cases taken
      rename_i at_
      exact .call at_
  | owner =>
      exact .owner (ownerStep_move taken)
  | finish waker =>
      simp only [step] at taken
      split at taken <;> cases taken
      · rename_i at_
        exact .finish at_
      · rename_i at_
        exact .register at_
  | setBounds index =>
      simp only [step] at taken
      split at taken
      · rename_i handle found
        split at taken <;> cases taken
        rename_i stage
        exact .setBounds found stage
      · cases taken
  | deoccupyRegion index =>
      simp only [step] at taken
      split at taken
      · rename_i handle found
        split at taken <;> cases taken
        rename_i range stage
        exact .deoccupyRegion found stage
      · cases taken
  | steal index retry =>
      simp only [step] at taken
      split at taken
      · rename_i handle found
        split at taken
        · rename_i batchLimit stage
          cases retry <;> cases taken
          · exact .steal found stage
          · exact .retry found stage
        · cases taken
      · cases taken
  | touch index update =>
      cases taken
      exact .touch

/-- The owner can make each of its moves. -/
theorem OwnerMove.taken
    {N : BufferSize width}
    {state after : State Cell Waker}
    (moved : OwnerMove N state after) :
    ownerStep N state = some after := by
  cases moved with
  | enterAtBoundary at_ boundary =>
      simp only [ownerStep, at_, if_pos boundary]
  | enterInside at_ inside =>
      simp only [ownerStep, at_, if_neg inside]
  | cachedFree at_ free =>
      simp only [ownerStep, at_, if_pos free]
  | cachedBusy at_ busy =>
      simp only [ownerStep, at_, if_neg busy]
  | loadedFree at_ free =>
      simp only [ownerStep, at_, if_pos free]
  | loadedBusy at_ busy =>
      simp only [ownerStep, at_, if_neg busy]
  | write at_ | add at_ | occupy at_ =>
      simp only [ownerStep, at_]
  | replaceJoined at_ same =>
      simp only [ownerStep, at_, if_pos same]
  | replaceOpening at_ differ =>
      simp only [ownerStep, at_, if_neg differ]

/-- The owner is stopped by nobody within a call. -/
theorem ownerStep_enabled
    (N : BufferSize width)
    (state : State Cell Waker) :
    state.owner = .idle ∨
      (∃ admission, state.owner = .returning admission) ∨
      ∃ after, ownerStep N state = some after := by
  cases at_ : state.owner with
  | idle =>
      exact Or.inl rfl
  | returning admission =>
      exact Or.inr (Or.inl ⟨admission, rfl⟩)
  | entered write =>
      right
      right
      by_cases boundary :
        state.currentWriteIndex N &&& (regionSize width N.size - 1) = 0
      · exact ⟨_, (OwnerMove.enterAtBoundary at_ boundary).taken⟩
      · exact ⟨_, (OwnerMove.enterInside at_ boundary).taken⟩
  | checking write index =>
      right
      right
      by_cases free : state.occupancy &&& regionMask width N.size index = 0
      · exact ⟨_, (OwnerMove.cachedFree at_ free).taken⟩
      · exact ⟨_, (OwnerMove.cachedBusy at_ free).taken⟩
  | loading write index =>
      right
      right
      by_cases free :
        state.innerOccupancy &&& regionMask width N.size index = 0
      · exact ⟨_, (OwnerMove.loadedFree at_ free).taken⟩
      · exact ⟨_, (OwnerMove.loadedBusy at_ free).taken⟩
  | writing write index =>
      exact Or.inr (Or.inr ⟨_, (OwnerMove.write at_).taken⟩)
  | adding index =>
      exact Or.inr (Or.inr ⟨_, (OwnerMove.add at_).taken⟩)
  | replacing index baseSlot =>
      right
      right
      by_cases same : (baseSlot ^^^ state.slot) &&& phaseFlag = 0
      · exact ⟨_, (OwnerMove.replaceJoined at_ same).taken⟩
      · exact ⟨_, (OwnerMove.replaceOpening at_ same).taken⟩
  | occupying index baseSlot =>
      exact Or.inr (Or.inr ⟨_, (OwnerMove.occupy at_).taken⟩)

/-- The system can make each of its moves. -/
theorem Move.taken
    {N : BufferSize width}
    {state after : State Cell Waker}
    {action : Action Cell Waker}
    (moved : Move N state action after) :
    step N state action = some after := by
  cases moved with
  | owner moved =>
      exact moved.taken
  | call at_ | finish at_ | register at_ =>
      simp only [step, at_]
  | setBounds found stage | deoccupyRegion found stage =>
      simp only [step, found, stage]
  | retry found stage | steal found stage =>
      simp only [step, found, stage]
      rfl
  | touch =>
      rfl

/-- Releasing a range leaves its handle in the wake loop or released. -/
theorem deoccupyRegion_stage
    (N : BufferSize width)
    (state : State Cell Waker)
    (index : Nat)
    (handle : Handle)
    (range : CounterRange) :
    ∃ stage : Stage,
      (deoccupyRegion N state index handle range).handles =
          state.handles.set index { handle with stage := stage } ∧
        (stage = .released ∨ ∃ left, stage = .draining left) := by
  by_cases last :
    state.innerOccupancy =
      oneShifted width N.size (range.start &&& (N.size - 1))
  · refine ⟨.draining (regionSize width N.size), ?_, Or.inr ⟨_, rfl⟩⟩
    simp [deoccupyRegion, State.setHandle, last]
  · refine ⟨.released, ?_, Or.inl rfl⟩
    simp [deoccupyRegion, State.setHandle, last]

/-- Bounding a range replaces its handle by one with the same start. -/
theorem setBounds_handles
    {state : State Cell Waker}
    {index : Nat}
    {old new : Handle}
    (found : state.handles[index]? = some old)
    (foundAfter :
      (setBounds width state index old).handles[index]? = some new) :
    new.first = old.first ∧
      (setBounds width state index old).handles =
        state.handles.set index new := by
  obtain ⟨inBounds, _⟩ := List.getElem?_eq_some_iff.mp found
  rw [setBounds, State.setHandle, List.getElem?_set_self inBounds]
    at foundAfter
  cases foundAfter
  exact ⟨rfl, rfl⟩

/-- Releasing a range replaces its handle by one that is no longer live. -/
theorem deoccupyRegion_handles
    (N : BufferSize width)
    (state : State Cell Waker)
    (index : Nat)
    (handle : Handle)
    (range : CounterRange) :
    ∃ released : Handle,
      (deoccupyRegion N state index handle range).handles =
          state.handles.set index released ∧
        released.isLive = false ∧
        released.isUnbounded = false := by
  obtain ⟨stage, handles, isReleased | ⟨left, isDraining⟩⟩ :=
    deoccupyRegion_stage N state index handle range
  · subst isReleased
    exact ⟨_, handles, rfl, rfl⟩
  · subst isDraining
    exact ⟨_, handles, rfl, rfl⟩

/-- The wake loop replaces its handle by one that it is still releasing. -/
theorem steal_handles
    (state : State Cell Waker)
    (index : Nat)
    (handle : Handle)
    (batchLimit : Nat) :
    ∃ stage : Stage,
      (steal state index handle batchLimit).handles =
          state.handles.set index { handle with stage := stage } ∧
        (stage = .released ∨ ∃ left, stage = .draining left) := by
  unfold steal
  split
  · exact ⟨.released, rfl, Or.inl rfl⟩
  · by_cases spent : batchLimit - 1 = 0
    · refine ⟨.released, ?_, Or.inl rfl⟩
      simp [State.setHandle, spent]
    · refine ⟨.draining (batchLimit - 1), ?_, Or.inr ⟨_, rfl⟩⟩
      simp [State.setHandle, spent]

theorem steal_owner
    (state : State Cell Waker)
    (index : Nat)
    (handle : Handle)
    (batchLimit : Nat) :
    (steal state index handle batchLimit).owner = state.owner := by
  unfold steal
  split <;> rfl

theorem steal_pending
    (state : State Cell Waker)
    (index : Nat)
    (handle : Handle)
    (batchLimit : Nat) :
    (steal state index handle batchLimit).pending =
      state.pending.tail := by
  unfold steal
  split <;> rename_i waiting <;> simp [State.setHandle, waiting]

/-- The actions of threads that hold a range. -/
def Action.isOnHandle : Action Cell Waker → Bool
  | .setBounds _ | .deoccupyRegion _ | .steal _ _ => true
  | .call _ | .owner | .finish _ | .touch _ _ => false

/-- Threads that hold a range leave the owner and the buffer alone. -/
theorem Move.frame
    {N : BufferSize width}
    {state after : State Cell Waker}
    {action : Action Cell Waker}
    (moved : Move N state action after)
    (onHandle : action.isOnHandle = true) :
    after.owner = state.owner ∧
      after.buffer = state.buffer ∧
      after.cells = state.cells := by
  cases moved with
  | steal found stage =>
      unfold Queue.steal
      split <;> exact ⟨rfl, rfl, rfl⟩
  | setBounds found stage | deoccupyRegion found stage
  | retry found stage =>
      exact ⟨rfl, rfl, rfl⟩
  | call at_ | owner moved | finish at_ | register at_ | touch =>
      cases onHandle

/-- A move from a reachable state reaches a state. -/
theorem Reachable.move
    {N : BufferSize width}
    {buffer : Nat → Cell}
    {state after : State Cell Waker}
    {action : Action Cell Waker}
    (reachable : Reachable N buffer state)
    (moved : Move N state action after) :
    Reachable N buffer after :=
  reachable.next trivial moved.taken

end StackQueue.Queue
