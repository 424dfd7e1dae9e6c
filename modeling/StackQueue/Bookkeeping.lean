import StackQueue.Assignment
import StackQueue.QueuePartition

namespace StackQueue.Assignment

open PackedCounters

/-!
# Exact bookkeeping

For buffers of at most 1024 cells: the occupancy word counts the live ranges
of every region exactly, along every exit path, and admission follows it.  A
range comes alive with the `fetch_add` that counts it and ends with its
`fetch_sub`.
-/

variable {Cell Waker : Type}

/-- The occupancy bookkeeping of a queue and its handles in one state. -/
structure ExactBookkeeping
    (kind : QueueKind)
    (N : BufferSize .w64)
    (state : State Cell Waker) : Prop where
  /-- Each byte counts the live ranges that began in its region. -/
  bytes :
    ∀ region,
      region < 8 →
      field 8 region state.queue.innerOccupancy =
        Queue.regionLoad N state.queue.liveStarts region
  /--
  A step leaves the word alone, or adds to a byte that is not full, the one of
  the region the new range begins in, or subtracts from a byte that is not
  empty, the one the released range was counted in.
  -/
  arithmetic :
    ∀ action after,
      step kind N state action = some after →
      after.queue.innerOccupancy = state.queue.innerOccupancy ∨
      (∃ index baseSlot handle,
        action = .owner ∧
          state.queue.owner = .occupying index baseSlot ∧
          after.queue.handles = state.queue.handles ++ [handle] ∧
          currentRegion .w64 N.size index =
            Queue.regionOf N handle.first ∧
          field 8 (Queue.regionOf N handle.first)
              state.queue.innerOccupancy <
            255 ∧
          after.queue.innerOccupancy =
            state.queue.innerOccupancy +
              unit 8 (Queue.regionOf N handle.first)) ∨
      ∃ i handle range,
        action = .advance i ∧
          state.queue.handles[i]? = some handle ∧
          handle.stage = .bounded range ∧
          currentRegion .w64 N.size (range.start &&& (N.size - 1)) =
            Queue.regionOf N handle.first ∧
          0 < field 8 (Queue.regionOf N handle.first)
            state.queue.innerOccupancy ∧
          after.queue.innerOccupancy +
              unit 8 (Queue.regionOf N handle.first) =
            state.queue.innerOccupancy
  /-- A range was released once if it is no longer live, else never. -/
  releases :
    ∀ (i : Nat) (holding : Holding) (handle : Queue.Handle),
      state.holdings[i]? = some holding →
      state.queue.handles[i]? = some handle →
      (holding.releases = if handle.isLive then 0 else 1) ∧
        (holding.value = .gone → holding.releases = 1)
  /-- No exit path gets stuck before its end. -/
  neverStuck :
    ∀ i self statement rest result releases,
      state.holdings[i]? =
        some ⟨.running self (statement :: rest) result, releases⟩ →
      (step kind N state (.advance i)).isSome ∨
        (step kind N state (.steal i false)).isSome
  /-- A call is never stopped before its end, and then it can finish. -/
  callGoesOn :
    state.queue.owner = .idle ∨
      (∃ admission,
        state.queue.owner = .returning admission ∧
          (step kind N state (.finish none)).isSome) ∨
      (step kind N state .owner).isSome
  /-- On a boundary a call checks the region of its cell. -/
  checkedOnBoundary :
    ∀ write,
      state.queue.owner = .entered write →
      state.queue.currentWriteIndex N % regionSize .w64 N.size = 0 →
      ∃ after,
        step kind N state .owner = some after ∧
          after.queue.owner =
            .checking write (state.queue.currentWriteIndex N)
  /-- A check happens on a boundary, and its verdict is the live ranges'. -/
  verdict :
    ∀ write index after,
      (state.queue.owner = .checking write index ∨
        state.queue.owner = .loading write index) →
      step kind N state .owner = some after →
      after.queue.owner ≠ .loading write index →
      index % regionSize .w64 N.size = 0 ∧
      (after.queue.owner = .returning .queueFull ∨
        after.queue.owner = .writing write index) ∧
      (after.queue.owner = .returning .queueFull ↔
        ∃ start ∈ state.queue.liveStarts,
          Queue.regionOf N start = currentRegion .w64 N.size index)
  /-- Off a boundary a call goes straight to its write. -/
  neverRefusedInside :
    ∀ write after,
      state.queue.owner = .entered write →
      state.queue.currentWriteIndex N % regionSize .w64 N.size ≠ 0 →
      step kind N state .owner = some after →
      after.queue.owner = .writing write (state.queue.currentWriteIndex N)
  /-- Only a boundary check refuses a call. -/
  refusedByCheck :
    ∀ action after,
      step kind N state action = some after →
      state.queue.owner ≠ .returning .queueFull →
      after.queue.owner = .returning .queueFull →
      action = .owner ∧
        ∃ write index, state.queue.owner = .loading write index

section Proofs

variable
    {kind : QueueKind}
    {N : BufferSize .w64}
    {buffer : Nat → Cell}
    {state : State Cell Waker}

/-- Only counting and releasing a range change the occupancy word. -/
theorem word_cases
    {queue after : Queue.State Cell Waker}
    {action : Queue.Action Cell Waker}
    (moved : Queue.Move N queue action after) :
    after.innerOccupancy = queue.innerOccupancy ∨
      (∃ index baseSlot,
        action = .owner ∧
          queue.owner = .occupying index baseSlot ∧
          after.handles =
            queue.handles ++
              [⟨baseSlot, .unbounded, queue.accepted - 1, 0⟩]) ∨
      ∃ i handle range,
        action = .deoccupyRegion i ∧
          queue.handles[i]? = some handle ∧
          handle.stage = .bounded range ∧
          after = Queue.deoccupyRegion N queue i handle range := by
  cases moved with
  | owner moved =>
      cases moved with
      | occupy at_ => exact Or.inr (Or.inl ⟨_, _, rfl, at_, rfl⟩)
      | _ => exact Or.inl rfl
  | deoccupyRegion found stage =>
      exact Or.inr (Or.inr ⟨_, _, _, rfl, found, stage, rfl⟩)
  | steal found stage =>
      refine Or.inl ?_
      unfold Queue.steal
      split <;> rfl
  | _ => exact Or.inl rfl

theorem arithmetic
    (small : N.size ≤ 1024)
    (reachable : Reachable kind N buffer state)
    {action : Action Cell Waker}
    {after : State Cell Waker}
    (taken : step kind N state action = some after) :
    after.queue.innerOccupancy = state.queue.innerOccupancy ∨
    (∃ index baseSlot handle,
      action = .owner ∧
        state.queue.owner = .occupying index baseSlot ∧
        after.queue.handles = state.queue.handles ++ [handle] ∧
        currentRegion .w64 N.size index =
          Queue.regionOf N handle.first ∧
        field 8 (Queue.regionOf N handle.first)
            state.queue.innerOccupancy <
          255 ∧
        after.queue.innerOccupancy =
          state.queue.innerOccupancy +
            unit 8 (Queue.regionOf N handle.first)) ∨
    ∃ i handle range,
      action = .advance i ∧
        state.queue.handles[i]? = some handle ∧
        handle.stage = .bounded range ∧
        currentRegion .w64 N.size (range.start &&& (N.size - 1)) =
          Queue.regionOf N handle.first ∧
        0 < field 8 (Queue.regionOf N handle.first)
          state.queue.innerOccupancy ∧
        after.queue.innerOccupancy +
            unit 8 (Queue.regionOf N handle.first) =
          state.queue.innerOccupancy := by
  have before := reachable.queue
  have afterReachable : Queue.Reachable N buffer after.queue :=
    Reachable.queue (reachable.next trivial taken)
  have phase := Queue.Reachable.phaseInvariant before
  rcases step_queue taken with same | ⟨queueAction, performs, stepped⟩
  · exact Or.inl (congrArg Queue.State.innerOccupancy same)
  · rcases word_cases (Queue.step_move stepped) with
      same | ⟨index, baseSlot, isOwner, at_, handles⟩ |
        ⟨i, handle, range, isRelease, found, stage, shape⟩
    · exact Or.inl same
    · subst isOwner
      have owner := phase.owner
      rw [at_] at owner
      obtain ⟨position, _, accepted, indexShape, _⟩ := owner
      have first : state.queue.accepted - 1 = position := by omega
      obtain ⟨notFull, added⟩ :=
        before.occupy_exact small afterReachable
          (Queue.liveStarts_occupy accepted handles)
      rw [first] at handles
      refine Or.inr (Or.inl
        ⟨index, baseSlot, _, performs, at_, handles, ?_, notFull, added⟩)
      rw [indexShape, Queue.currentRegion_mod]
    · subst isRelease
      have starts := Queue.liveStarts_deoccupyRegion (N := N) found stage
      rw [← shape] at starts
      obtain ⟨notEmpty, subtracted⟩ :=
        before.deoccupy_exact small afterReachable starts
      refine Or.inr (Or.inr
        ⟨i, handle, range, performs, found, stage, ?_, notEmpty,
          subtracted⟩)
      rw [phase.releaseIndex found stage, Queue.currentRegion_mod]

/-- A range is counted as long as its handle has not released it. -/
theorem HandleInvariant.releases
    (invariant : HandleInvariant state)
    {i : Nat}
    {holding : Holding}
    {handle : Queue.Handle}
    (found : state.holdings[i]? = some holding)
    (present : state.queue.handles[i]? = some handle) :
    (holding.releases = if handle.isLive then 0 else 1) ∧
      (holding.value = .gone → holding.releases = 1) := by
  obtain ⟨fitted, counted⟩ := invariant.fits i holding handle found present
  constructor
  · rw [counted]
    cases stage : handle.stage <;>
      simp [ownership, Queue.Handle.isLive, stage]
  · intro gone
    rw [gone] at fitted
    rw [counted, if_pos fitted]

/-- Each statement finds its range as it needs it. -/
theorem HandleInvariant.neverStuck
    (invariant : HandleInvariant state)
    {i releases : Nat}
    {self result : Option HandleType}
    {statement : Statement}
    {rest : List Statement}
    (found :
      state.holdings[i]? =
        some ⟨.running self (statement :: rest) result, releases⟩) :
    (Assignment.step kind N state (.advance i)).isSome ∨
      (Assignment.step kind N state (.steal i false)).isSome := by
  obtain ⟨handle, present, fitted, _⟩ := invariant.exists_handle found
  cases statement with
  | setBounds =>
      simp only [settles, Bool.and_eq_true, decide_eq_true_eq] at fitted
      have stage : handle.stage = .unbounded := by
        cases shape : handle.stage <;> simp_all [ownership]
      refine Or.inl ?_
      simp [Assignment.step, found, Assignment.advance, State.onQueue,
        State.setHolding, Queue.step, present, stage]
  | deoccupyRegion =>
      simp only [settles, Bool.and_eq_true, decide_eq_true_eq] at fitted
      obtain ⟨range, stage⟩ : ∃ range, handle.stage = .bounded range := by
        cases shape : handle.stage <;> simp_all [ownership]
      refine Or.inl ?_
      simp [Assignment.step, found, Assignment.advance, State.onQueue,
        State.setHolding, Queue.step, present, stage]
  | wakePending =>
      simp only [settles, Bool.and_eq_true, decide_eq_true_eq] at fitted
      cases stage : handle.stage with
      | released =>
          refine Or.inl ?_
          simp [Assignment.step, found, Assignment.advance,
            State.hasReleased, present, stage]
      | draining batchLimit =>
          refine Or.inr ?_
          simp [Assignment.step, found, State.onQueue, Queue.step, present, stage]
      | unbounded | bounded range =>
          rw [stage] at fitted
          cases fitted.1
  | visitCells | forget | create type =>
      refine Or.inl ?_
      simp [Assignment.step, found, Assignment.advance]

/-- The owner's accesses and its return are never stopped. -/
theorem callGoesOn
    (kind : QueueKind)
    (N : BufferSize .w64)
    (state : State Cell Waker) :
    state.queue.owner = .idle ∨
      (∃ admission,
        state.queue.owner = .returning admission ∧
          (step kind N state (.finish none)).isSome) ∨
      (step kind N state .owner).isSome := by
  rcases Queue.ownerStep_enabled N state.queue with
    idle | ⟨admission, returning⟩ | ⟨after, taken⟩
  · exact Or.inl idle
  · refine Or.inr (Or.inl ⟨admission, returning, ?_⟩)
    have finished :
        Queue.step N state.queue (.finish none) =
          some { state.queue with owner := .idle } :=
      Queue.Move.taken (.finish returning)
    cases admission with
    | queueFull | joined | opened index =>
        simp [Assignment.step, State.onQueue, finished]
  · refine Or.inr (Or.inr ?_)
    simp [Assignment.step, Queue.step, taken]

/-- Only a freshly loaded word refuses a call. -/
theorem refusedByLoad
    {queue after : Queue.State Cell Waker}
    {action : Queue.Action Cell Waker}
    (moved : Queue.Move N queue action after)
    (notBefore : queue.owner ≠ .returning .queueFull)
    (refused : after.owner = .returning .queueFull) :
    action = .owner ∧
      ∃ write index, queue.owner = .loading write index := by
  cases moved with
  | owner moved =>
      cases moved with
      | loadedBusy at_ busy => exact ⟨rfl, _, _, at_⟩
      | _ => cases refused
  | steal found stage =>
      rw [Queue.steal_owner] at refused
      exact absurd refused notBefore
  | setBounds found stage | deoccupyRegion found stage
  | retry found stage | touch =>
      exact absurd refused notBefore
  | _ => cases refused

end Proofs

/--
For buffers of at most 1024 cells the bookkeeping is exact in every reachable
state of a queue and its handles.
-/
theorem bookkeeping_exact
    (kind : QueueKind)
    (N : BufferSize .w64)
    (small : N.size ≤ 1024)
    (buffer : Nat → Cell)
    (state : State Cell Waker)
    (reachable : Reachable kind N buffer state) :
    ExactBookkeeping kind N state where
  bytes := fun region inWord =>
    reachable.queue.field_innerOccupancy small inWord
  arithmetic := fun action after taken =>
    Assignment.arithmetic small reachable taken
  releases := fun i holding handle found present =>
    reachable.handleInvariant.releases found present
  neverStuck := fun i self statement rest result releases found =>
    reachable.handleInvariant.neverStuck found
  callGoesOn := Assignment.callGoesOn kind N state
  checkedOnBoundary := by
    intro write at_ boundary
    rw [← N.and_regionSize_sub_one] at boundary
    have moved :=
      Queue.OwnerMove.taken (.enterAtBoundary (N := N) at_ boundary)
    exact ⟨_, congrArg (Option.map _) moved, rfl⟩
  verdict := by
    intro write index after at_ taken decided
    obtain ⟨queue, stepped, shape⟩ := Option.map_eq_some_iff.mp taken
    subst shape
    have boundary :=
      Queue.Reachable.checkedAtBoundary reachable.queue at_
    rw [N.and_regionSize_sub_one] at boundary
    exact ⟨boundary,
      (Queue.Reachable.occupancyInvariant small reachable.queue).verdict
        (Queue.Reachable.phaseInvariant reachable.queue)
        (Queue.Reachable.innerOccupancy reachable.queue)
        at_ stepped decided⟩
  neverRefusedInside := by
    intro write after at_ inside taken
    obtain ⟨queue, stepped, shape⟩ := Option.map_eq_some_iff.mp taken
    subst shape
    rw [← N.and_regionSize_sub_one] at inside
    have moved :=
      Queue.OwnerMove.taken (.enterInside (N := N) at_ inside)
    rw [Queue.step, moved] at stepped
    cases stepped
    rfl
  refusedByCheck := by
    intro action after taken notBefore refused
    rcases step_queue taken with same | ⟨queueAction, performs, stepped⟩
    · rw [same] at refused
      exact absurd refused notBefore
    · obtain ⟨isOwner, atLoading⟩ :=
        refusedByLoad (Queue.step_move stepped) notBefore refused
      subst isOwner
      exact ⟨performs, atLoading⟩

/-- A call whose task is its number, with its accesses and its return. -/
def callRun (number accesses : Nat) : List (Action (Option Nat) Nat) :=
  .call (fun _ => some number) ::
    (List.replicate accesses .owner ++ [.finish none])

/-- A full buffer of 64 tasks in one range, and a call that is refused. -/
def refusedRun : List (Action (Option Nat) Nat) :=
  callRun 0 6 ++
    ((List.range 63).map fun i =>
      callRun (i + 1) (if (i + 1) % 8 = 0 then 5 else 4)).flatten ++
    .call (fun _ => some 64) :: List.replicate 3 .owner

/--
The caller registers; the range is bounded and copied out by `to_vec`, and its
release takes the waker.
-/
def toVecRun : List (Action (Option Nat) Nat) :=
  [.finish (some 9), .invoke 0 .intoBounded] ++
    List.replicate 4 (.advance 0) ++
    .invoke 0 .toVec :: List.replicate 2 (.advance 0) ++
    List.replicate 2 (.steal 0 false) ++ List.replicate 3 (.advance 0)

/--
The 65th call finds the range live and is refused; after `to_vec` the handle
is gone, released once, and the word is zero.
-/
theorem bookkeeping_exact_toVec :
    ∃ refused state : State (Option Nat) Nat,
      TransitionSystem.execute (step .bufferCell Queue.smallestBuffer)
          (initial fun _ => none) refusedRun =
        some refused ∧
      refused.queue.owner = .returning .queueFull ∧
      refused.queue.innerOccupancy = 1 ∧
      ExactBookkeeping .bufferCell Queue.smallestBuffer refused ∧
      TransitionSystem.execute (step .bufferCell Queue.smallestBuffer)
          refused toVecRun =
        some state ∧
      state.holdings = [⟨.gone, 1⟩] ∧
      state.queue.innerOccupancy = 0 ∧
      ExactBookkeeping .bufferCell Queue.smallestBuffer state := by
  have performed :
      ((TransitionSystem.execute (step .bufferCell Queue.smallestBuffer)
          (initial fun _ => none) refusedRun).bind fun refused =>
        (TransitionSystem.execute
            (step .bufferCell Queue.smallestBuffer)
            refused toVecRun).map fun state =>
          ((refused.queue.owner.admission?,
              refused.queue.innerOccupancy),
            (state.holdings, state.queue.innerOccupancy))) =
        some ((some .queueFull, 1), ([⟨.gone, 1⟩], 0)) := by
    decide +kernel
  obtain ⟨refused, reached, performed⟩ :=
    Option.bind_eq_some_iff.mp performed
  obtain ⟨state, released, shape⟩ := Option.map_eq_some_iff.mp performed
  simp only [Prod.mk.injEq] at shape
  obtain ⟨⟨verdict, counted⟩, holdings, empty⟩ := shape
  have refusedReachable :=
    TransitionSystem.Reachable.start.execute reached
  exact ⟨refused, state, reached,
    Queue.Owner.admission?_eq_some_iff.mp verdict, counted,
    bookkeeping_exact .bufferCell Queue.smallestBuffer (by decide) _
      refused refusedReachable,
    released, holdings, empty,
    bookkeeping_exact .bufferCell Queue.smallestBuffer (by decide) _
      state (refusedReachable.execute released)⟩

end StackQueue.Assignment
