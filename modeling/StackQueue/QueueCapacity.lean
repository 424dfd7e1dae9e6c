import StackQueue.QueueAdmission

namespace StackQueue.Queue

open PackedCounters

/-!
# The capacity of an unoccupied buffer

Once no range is live, the calls that follow are accepted until the window
that begins in the region of the next position is used up, and refused from
then on, as long as no range is released.  How the tasks fall into ranges does
not matter: the first task opens a range at the very position where the
buffer was found empty, and that range alone closes the window one buffer
later.

`Filling` carries this along a run: the live ranges begin no earlier than that
position, and a range begins exactly there as soon as a task is covered.
-/

variable {Cell Waker : Type}

/-- No range is live: none is counted, and none is being opened. -/
structure State.Vacant (state : State Cell Waker) : Prop where
  noneLive : state.liveStarts = []
  noneOpening : state.isOpening = false

/-- The cells from the next position on that a vacant buffer can give out. -/
def State.capacity
    (N : BufferSize .w64)
    (state : State Cell Waker) :
    Nat :=
  N.size - state.accepted % regionSize .w64 N.size

/-- What is decided about a call of `push` or `enqueue`. -/
inductive Decision where
  /-- The task is counted by the `fetch_add` on the slot. -/
  | accepted
  /-- `check_regional_occupancy` returns `Err(QueueFull)`. -/
  | refused
  deriving Repr, DecidableEq

/-- What one step decides about the call in progress. -/
def decision
    (N : BufferSize .w64) :
    State Cell Waker × Action Cell Waker → Option Decision
  | (state, .owner) =>
      match state.owner with
      | .adding _ => some .accepted
      | .loading _ index =>
          if state.innerOccupancy &&& regionMask .w64 N.size index = 0 then
            none
          else
            some .refused
      | _ => none
  | _ => none

/-- The decisions of a run, oldest first. -/
def decisions
    (N : BufferSize .w64)
    (trace : List (State Cell Waker × Action Cell Waker)) :
    List Decision :=
  trace.filterMap (decision N)

/-- The action takes a range off the occupancy word. -/
def Action.isRelease : Action Cell Waker → Bool
  | .deoccupyRegion _ => true
  | _ => false

/-- No range is released during a run. -/
def Unreleased
    (trace : List (State Cell Waker × Action Cell Waker)) :
    Prop :=
  ∀ taken ∈ trace, taken.2.isRelease = false

/-- The end of the window that begins in the region of a position. -/
def windowEnd (N : BufferSize .w64) (position : Nat) : Nat :=
  regionStart N position + N.size

/-- The queue fills up from `opening`, where no range was live. -/
structure Filling
    (N : BufferSize .w64)
    (opening : Nat)
    (state : State Cell Waker) : Prop where
  /-- Every live range begins there or later. -/
  fromOpening : ∀ start ∈ state.liveStarts, opening ≤ start
  /-- The ranges extend at least to there. -/
  reached : opening ≤ state.covered
  /-- Once they extend further, one of them begins there. -/
  opened : opening < state.covered → opening ∈ state.liveStarts

/-- The count of accepted tasks around a step, and what the step decides. -/
def Decided
    (limit accepted next : Nat) :
    Option Decision → Prop
  | none => next = accepted
  | some .accepted => next = accepted + 1 ∧ accepted < limit
  | some .refused => next = accepted ∧ accepted = limit

section Positions

variable (N : BufferSize .w64)

theorem windowEnd_eq (position : Nat) :
    windowEnd N position =
      position + (N.size - position % regionSize .w64 N.size) := by
  have eight := N.eight_mul_regionSize
  have positive := N.eight_le_regionSize
  have inside : position % regionSize .w64 N.size < regionSize .w64 N.size :=
    Nat.mod_lt _ (by omega)
  have split := Nat.div_add_mod' position (regionSize .w64 N.size)
  rw [windowEnd, regionStart]
  omega

theorem lt_windowEnd (position : Nat) :
    position < windowEnd N position := by
  have eight := N.eight_mul_regionSize
  have here := lt_regionStart_add N position
  rw [windowEnd]
  omega

/-- At a boundary within the window, no earlier position of the window. -/
theorem regionOf_ne_of_boundary
    {opening start position : Nat}
    (fromOpening : opening ≤ start)
    (earlier : start < position)
    (boundary : position % regionSize .w64 N.size = 0)
    (within : position < windowEnd N opening) :
    regionOf N start ≠ regionOf N position := by
  have positive := N.eight_le_regionSize
  have eight := N.eight_mul_regionSize
  have whole :
      position / regionSize .w64 N.size * regionSize .w64 N.size =
        position :=
    Nat.div_mul_cancel (Nat.dvd_of_mod_eq_zero boundary)
  have below :
      start / regionSize .w64 N.size < position / regionSize .w64 N.size := by
    rw [Nat.div_lt_iff_lt_mul (by omega), whole]
    exact earlier
  have above :
      opening / regionSize .w64 N.size ≤ start / regionSize .w64 N.size :=
    Nat.div_le_div_right fromOpening
  have close :
      position / regionSize .w64 N.size <
        opening / regionSize .w64 N.size + 8 := by
    rw [Nat.div_lt_iff_lt_mul (by omega), Nat.add_mul, eight]
    exact within
  intro same
  unfold regionOf at same
  omega

end Positions

/-! ## Filling up -/

namespace Filling

variable
    {N : BufferSize .w64}
    {opening : Nat}
    {state after : State Cell Waker}

/-- A vacant queue fills up from its next position. -/
theorem of_vacant
    (phase : PhaseInvariant N state)
    (vacant : state.Vacant) :
    Filling N state.accepted state := by
  have covered := phase.accepted_eq
  rw [vacant.noneOpening, if_neg (by decide), Nat.add_zero] at covered
  constructor
  case fromOpening =>
    intro start live
    rw [vacant.noneLive] at live
    cases live
  case reached =>
    exact Nat.le_of_eq covered
  case opened =>
    intro beyond
    exact absurd covered (Nat.ne_of_lt beyond)

/-- A step that keeps the live ranges and how far they extend. -/
theorem of_same
    (filling : Filling N opening state)
    (starts : after.liveStarts = state.liveStarts)
    (covered : after.covered = state.covered) :
    Filling N opening after where
  fromOpening := by
    rw [starts]
    exact filling.fromOpening
  reached := by
    rw [covered]
    exact filling.reached
  opened := by
    rw [starts, covered]
    exact filling.opened

/-- While no task is covered, no range can be joined. -/
theorem hasUnbounded_eq_false
    (filling : Filling N opening state)
    (phase : PhaseInvariant N state)
    (empty : state.covered = opening) :
    state.hasUnbounded = false := by
  rw [State.hasUnbounded, List.any_eq_false]
  intro handle member isUnbounded
  have live : handle.isLive = true := by
    have stage : handle.stage = .unbounded := by
      simpa [Handle.isUnbounded] using isUnbounded
    simp [Handle.isLive, stage]
  have isStart : handle.first ∈ state.liveStarts :=
    List.mem_map_of_mem (List.mem_filter.mpr ⟨member, live⟩)
  have later := filling.fromOpening handle.first isStart
  have earlier := phase.first_lt_covered member
  omega

/-- The `fetch_add` extends the range to join, or leaves the ranges alone. -/
theorem add
    (filling : Filling N opening state)
    (phase : PhaseInvariant N state)
    {index : Nat}
    (at_ : state.owner = .adding index) :
    Filling N opening
      { state with
        innerSlot :=
          wrappingAdd .w64 state.innerSlot
            (1 <<< PointerWidth.indexShift .w64)
        owner := .replacing index state.innerSlot
        cells := state.cells ++ [index]
        unboundedAtAdd := state.hasUnbounded } := by
  have owner := phase.owner
  rw [at_] at owner
  obtain ⟨_, ownPhase, slot, parity⟩ := owner
  have coveredBefore : state.covered = state.accepted := by
    simp [State.covered, at_]
  by_cases joins : phaseOf state.innerSlot = ownPhase
  · have unbounded : state.hasUnbounded = true := parity.mpr joins
    have beyond : opening < state.covered := by
      refine Nat.lt_of_le_of_ne filling.reached fun empty => ?_
      rw [filling.hasUnbounded_eq_false phase empty.symm] at unbounded
      cases unbounded
    have extended :
        State.covered
          ({ state with
              innerSlot :=
                wrappingAdd .w64 state.innerSlot
                  (1 <<< PointerWidth.indexShift .w64)
              owner := .replacing index state.innerSlot
              cells := state.cells ++ [index]
              unboundedAtAdd := state.hasUnbounded } :
            State Cell Waker) =
          state.covered + 1 := by
      rw [coveredBefore]
      simp [State.covered, slot, joins, State.accepted]
    constructor
    case fromOpening =>
      exact filling.fromOpening
    case reached =>
      rw [extended]
      exact Nat.le_succ_of_le filling.reached
    case opened =>
      exact fun _ => filling.opened beyond
  · refine filling.of_same rfl ?_
    rw [coveredBefore]
    simp [State.covered, slot, joins, State.accepted]

/-- The first range to be opened begins where the buffer was vacant. -/
theorem occupy
    (filling : Filling N opening state)
    (phase : PhaseInvariant N state)
    {index baseSlot occupancy : Nat}
    (at_ : state.owner = .occupying index baseSlot) :
    Filling N opening
      { state with
        innerOccupancy := occupancy
        occupancy := occupancy
        handles :=
          state.handles ++ [⟨baseSlot, .unbounded, state.accepted - 1, 0⟩]
        owner := .returning (.opened state.handles.length) } := by
  have owner := phase.owner
  rw [at_] at owner
  obtain ⟨position, _, accepted, _⟩ := owner
  have covered : state.covered = position := by
    simp [State.covered, at_, accepted]
  have reached := filling.reached
  rw [covered] at reached
  let occupied : State Cell Waker :=
    { state with
      innerOccupancy := occupancy
      occupancy := occupancy
      handles :=
        state.handles ++ [⟨baseSlot, .unbounded, state.accepted - 1, 0⟩]
      owner := .returning (.opened state.handles.length) }
  have starts : occupied.liveStarts = state.liveStarts ++ [position] :=
    liveStarts_occupy accepted rfl
  change Filling N opening occupied
  constructor
  case fromOpening =>
    intro start live
    rw [starts, List.mem_append, List.mem_singleton] at live
    rcases live with earlier | isNew
    · exact filling.fromOpening start earlier
    · rw [isNew]
      exact reached
  case reached =>
    change opening ≤ state.accepted
    rw [accepted]
    exact Nat.le_succ_of_le reached
  case opened =>
    intro _
    rw [starts, List.mem_append, List.mem_singleton]
    rcases Nat.lt_or_eq_of_le reached with beyond | isFirst
    · rw [← covered] at beyond
      exact Or.inl (filling.opened beyond)
    · exact Or.inr isFirst

/-- The owner's steps keep filling up the queue. -/
theorem ownerMove
    (filling : Filling N opening state)
    (phase : PhaseInvariant N state)
    (moved : OwnerMove N state after) :
    Filling N opening after := by
  cases moved with
  | add at_ =>
      exact filling.add phase at_
  | occupy at_ =>
      exact filling.occupy phase at_
  | replaceJoined at_ same =>
      have before := phase.accepted_eq
      rw [(phase.joins_iff at_).mp same, if_neg (by decide), Nat.add_zero]
        at before
      exact filling.of_same rfl before
  | replaceOpening at_ differ =>
      have opens : state.isOpening = true := by
        rw [← Bool.not_eq_false]
        exact fun joins => differ ((phase.joins_iff at_).mpr joins)
      have before := phase.accepted_eq
      rw [opens, if_pos rfl] at before
      refine filling.of_same rfl ?_
      change state.accepted - 1 = state.covered
      rw [before, Nat.add_sub_cancel]
  | enterAtBoundary at_ _ | enterInside at_ _ | cachedFree at_ _
  | cachedBusy at_ _ | loadedFree at_ _ | loadedBusy at_ _ =>
      exact filling.of_same rfl (by simp [State.covered, at_, State.accepted])
  | write at_ =>
      refine filling.of_same rfl ?_
      simp [State.covered, at_, State.accepted, State.updateCell]

/-- Steps that release no range keep filling up the queue. -/
theorem move
    (filling : Filling N opening state)
    (phase : PhaseInvariant N state)
    {action : Action Cell Waker}
    (unreleased : action.isRelease = false)
    (moved : Move N state action after) :
    Filling N opening after := by
  cases moved with
  | owner moved =>
      exact filling.ownerMove phase moved
  | deoccupyRegion found stage =>
      cases unreleased
  | setBounds found stage =>
      exact filling.of_same (liveStarts_setBounds found stage) rfl
  | steal found stage =>
      refine filling.of_same (liveStarts_steal found stage) ?_
      unfold Queue.steal
      split <;> rfl
  | call at_ | finish at_ | register at_ =>
      exact filling.of_same rfl (by simp [State.covered, at_, State.accepted])
  | retry found stage =>
      exact filling
  | touch =>
      exact filling.of_same rfl rfl

end Filling

/-! ## What a step decides -/

section Deciding

variable
    {N : BufferSize .w64}
    {opening : Nat}
    {state after : State Cell Waker}

/-- A step that decides nothing counts no task. -/
theorem accepted_of_undecided
    {action : Action Cell Waker}
    (undecided : decision N (state, action) = none)
    (moved : Move N state action after) :
    after.accepted = state.accepted := by
  cases moved with
  | owner moved =>
      cases moved with
      | add at_ =>
          simp [decision, at_] at undecided
      | _ => rfl
  | steal found stage =>
      unfold Queue.steal
      split <;> rfl
  | _ => rfl

/-- A refused call has used up the window. -/
theorem accepted_eq_windowEnd
    (small : N.size ≤ 1024)
    {buffer : Nat → Cell}
    (reachable : Reachable N buffer state)
    (filling : Filling N opening state)
    (within : state.accepted ≤ windowEnd N opening)
    {write : Cell → Cell}
    {index : Nat}
    (at_ : state.owner = .loading write index)
    (busy : state.innerOccupancy &&& regionMask .w64 N.size index ≠ 0) :
    state.accepted = windowEnd N opening := by
  have phase := Reachable.phaseInvariant reachable
  have isNext := phase.checkedIndex (Or.inr at_)
  have boundary := Reachable.checkedAtBoundary reachable (Or.inr at_)
  rw [isNext] at busy boundary
  obtain ⟨start, live, same⟩ :=
    ((Reachable.occupancyInvariant small reachable).busy_iff
      (Reachable.innerOccupancy reachable) _).mp busy
  have earlier : start < state.accepted :=
    Nat.lt_of_lt_of_le (phase.liveStart_lt_covered live)
      phase.covered_le_accepted
  have eight := N.eight_mul_regionSize
  rw [N.and_regionSize_sub_one, Nat.mod_mod_of_dvd _ ⟨8, by omega⟩]
    at boundary
  refine Nat.le_antisymm within (Nat.le_of_not_lt fun inside => ?_)
  exact regionOf_ne_of_boundary N (filling.fromOpening start live) earlier
    boundary inside same

/-- A task is counted inside the window only. -/
theorem accepted_lt_windowEnd
    (small : N.size ≤ 1024)
    {buffer : Nat → Cell}
    (reachable : Reachable N buffer state)
    (filling : Filling N opening state)
    {index : Nat}
    (at_ : state.owner = .adding index) :
    state.accepted < windowEnd N opening := by
  have covered : state.covered = state.accepted := by
    simp [State.covered, at_]
  have reached := filling.reached
  rw [covered] at reached
  rcases Nat.lt_or_eq_of_le reached with beyond | isFirst
  · have live := filling.opened (by rw [covered]; exact beyond)
    have room :=
      (Reachable.occupancyInvariant small reachable).admitted
        (by rw [at_]; rfl)
    exact room opening live
  · rw [← isFirst]
    exact lt_windowEnd N opening

/-- What each step decides agrees with the window. -/
theorem Filling.decided
    (small : N.size ≤ 1024)
    {buffer : Nat → Cell}
    (reachable : Reachable N buffer state)
    (filling : Filling N opening state)
    (within : state.accepted ≤ windowEnd N opening)
    {action : Action Cell Waker}
    (moved : Move N state action after) :
    Decided (windowEnd N opening) state.accepted after.accepted
      (decision N (state, action)) := by
  cases decides : decision N (state, action) with
  | none =>
      exact accepted_of_undecided decides moved
  | some verdict =>
      cases moved with
      | owner moved =>
          cases moved with
          | add at_ =>
              simp only [decision, at_, Option.some.injEq] at decides
              subst verdict
              exact ⟨List.length_append,
                accepted_lt_windowEnd small reachable filling at_⟩
          | loadedBusy at_ busy =>
              simp only [decision, at_, if_neg busy, Option.some.injEq]
                at decides
              subst verdict
              exact ⟨rfl,
                accepted_eq_windowEnd small reachable filling within at_
                  busy⟩
          | loadedFree at_ free =>
              simp [decision, at_, free] at decides
          | enterAtBoundary at_ _ | enterInside at_ _ | cachedFree at_ _
          | cachedBusy at_ _ | write at_ | replaceJoined at_ _
          | replaceOpening at_ _ | occupy at_ =>
              simp [decision, at_] at decides
      | _ => cases decides

/-- The decisions taken so far: acceptances up to the window, then refusals. -/
theorem exists_decisions
    (small : N.size ≤ 1024)
    {buffer : Nat → Cell}
    (reachable : Reachable N buffer state)
    (filling : Filling N state.accepted state)
    {trace : List (State Cell Waker × Action Cell Waker)}
    (run : TransitionSystem.Run (step N) state trace after)
    (unreleased : Unreleased trace) :
    Filling N state.accepted after ∧
      after.accepted ≤ windowEnd N state.accepted ∧
      ∃ accepted refused,
        decisions N trace =
            List.replicate accepted .accepted ++
              List.replicate refused .refused ∧
          after.accepted = state.accepted + accepted ∧
          (0 < refused → after.accepted = windowEnd N state.accepted) := by
  induction run with
  | start =>
      exact ⟨filling, Nat.le_of_lt (lt_windowEnd N _), 0, 0, rfl, rfl,
        fun positive => absurd positive (Nat.lt_irrefl 0)⟩
  | @next trace before after action earlier taken inductionHypothesis =>
      obtain ⟨beforeFilling, within, accepted, refused, sofar, counted,
          exhausted⟩ :=
        inductionHypothesis fun entry member =>
          unreleased entry (List.mem_append_left _ member)
      have beforeReachable := earlier.reachable_from reachable
      have moved := step_move taken
      have afterFilling :=
        beforeFilling.move (Reachable.phaseInvariant beforeReachable)
          (unreleased (before, action) (by simp)) moved
      have decided :=
        beforeFilling.decided small beforeReachable within moved
      have longer :
          decisions N (trace ++ [(before, action)]) =
            decisions N trace ++ (decision N (before, action)).toList := by
        cases decides : decision N (before, action) <;>
          simp [decisions, decides]
      refine ⟨afterFilling, ?_⟩
      rw [longer, sofar]
      cases decides : decision N (before, action) with
      | none =>
          rw [decides] at decided
          change after.accepted = before.accepted at decided
          rw [decided]
          exact ⟨within, accepted, refused, List.append_nil _, counted,
            exhausted⟩
      | some verdict =>
          rw [decides] at decided
          cases verdict with
          | accepted =>
              obtain ⟨next, inside⟩ := decided
              have noneRefused : refused = 0 := by
                refine Nat.eq_zero_of_not_pos fun positive => ?_
                exact absurd (exhausted positive) (Nat.ne_of_lt inside)
              subst noneRefused
              rw [next]
              refine ⟨inside, accepted + 1, 0, ?_, ?_, ?_⟩
              · simp [List.replicate_succ']
              · rw [counted, Nat.add_assoc]
              · exact fun positive => absurd positive (Nat.lt_irrefl 0)
          | refused =>
              obtain ⟨next, used⟩ := decided
              rw [next]
              refine ⟨within, accepted, refused + 1, ?_, counted,
                fun _ => used⟩
              simp [List.replicate_succ']

end Deciding

/-! ## Every call is decided -/

/-- Some run without releases decides the given number of calls. -/
def Answers
    (N : BufferSize .w64)
    (state : State Cell Waker)
    (count : Nat) :
    Prop :=
  ∃ (trace : List (State Cell Waker × Action Cell Waker))
    (after : State Cell Waker),
    TransitionSystem.Run (step N) state trace after ∧
      Unreleased trace ∧
      (decisions N trace).length = count

namespace Answers

variable
    {N : BufferSize .w64}
    {state after : State Cell Waker}

/-- A step that decides a call. -/
theorem of_deciding
    {action : Action Cell Waker}
    {verdict : Decision}
    (moved : Move N state action after)
    (unreleased : action.isRelease = false)
    (decides : decision N (state, action) = some verdict) :
    Answers N state 1 := by
  refine ⟨[(state, action)], after, .cons moved.taken .start, ?_, ?_⟩
  · intro taken member
    rw [List.mem_singleton.mp member]
    exact unreleased
  · simp [decisions, decides]

/-- A step that decides nothing. -/
theorem of_move
    {action : Action Cell Waker}
    (moved : Move N state action after)
    (unreleased : action.isRelease = false)
    (undecided : decision N (state, action) = none)
    {count : Nat}
    (answers : Answers N after count) :
    Answers N state count := by
  obtain ⟨trace, last, run, rest, decided⟩ := answers
  refine ⟨(state, action) :: trace, last, .cons moved.taken run, ?_, ?_⟩
  · intro taken member
    rcases List.mem_cons.mp member with isFirst | inTrace
    · rw [isFirst]
      exact unreleased
    · exact rest taken inTrace
  · rw [decisions, List.filterMap_cons_none undecided]
    exact decided

/-- From its check on, a call is decided. -/
theorem of_writing
    {write : Cell → Cell}
    {index : Nat}
    (at_ : state.owner = .writing write index) :
    Answers N state 1 := by
  refine of_move (.owner (.write at_)) rfl (by simp [decision, at_]) ?_
  exact of_deciding (.owner (.add rfl)) rfl rfl

theorem of_loading
    {write : Cell → Cell}
    {index : Nat}
    (at_ : state.owner = .loading write index) :
    Answers N state 1 := by
  by_cases free :
    state.innerOccupancy &&& regionMask .w64 N.size index = 0
  · exact of_move (.owner (.loadedFree at_ free)) rfl
      (by simp [decision, at_, free]) (of_writing rfl)
  · exact of_deciding (.owner (.loadedBusy at_ free)) rfl
      (by simp only [decision, at_, if_neg free]; rfl)

theorem of_checking
    {write : Cell → Cell}
    {index : Nat}
    (at_ : state.owner = .checking write index) :
    Answers N state 1 := by
  have undecided : decision N (state, .owner) = none := by
    simp [decision, at_]
  by_cases free : state.occupancy &&& regionMask .w64 N.size index = 0
  · exact of_move (.owner (.cachedFree at_ free)) rfl undecided
      (of_writing rfl)
  · exact of_move (.owner (.cachedBusy at_ free)) rfl undecided
      (of_loading rfl)

theorem of_entered
    {write : Cell → Cell}
    (at_ : state.owner = .entered write) :
    Answers N state 1 := by
  have undecided : decision N (state, .owner) = none := by
    simp [decision, at_]
  by_cases boundary :
    state.currentWriteIndex N &&& (regionSize .w64 N.size - 1) = 0
  · exact of_move (.owner (.enterAtBoundary at_ boundary)) rfl undecided
      (of_checking rfl)
  · exact of_move (.owner (.enterInside at_ boundary)) rfl undecided
      (of_writing rfl)

/-- Between calls, the next call is decided. -/
theorem of_idle
    (at_ : state.owner = .idle) :
    Answers N state 1 := by
  have entering :
      Move N state (.call id) { state with owner := .entered id } :=
    .call at_
  exact of_move entering rfl rfl (of_entered rfl)

theorem of_returning
    {admission : Admission}
    (at_ : state.owner = .returning admission) :
    Answers N state 1 := by
  exact of_move (.finish at_) rfl rfl (of_idle rfl)

/-- From every state, a run decides one more call. -/
theorem one
    (N : BufferSize .w64)
    (state : State Cell Waker) :
    Answers N state 1 := by
  cases at_ : state.owner with
  | idle =>
      exact of_idle at_
  | entered write =>
      exact of_entered at_
  | checking write index =>
      exact of_checking at_
  | loading write index =>
      exact of_loading at_
  | writing write index =>
      exact of_writing at_
  | adding index =>
      exact of_deciding (.owner (.add at_)) rfl
        (by simp only [decision, at_]; rfl)
  | replacing index baseSlot =>
      have undecided : decision N (state, .owner) = none := by
        simp [decision, at_]
      by_cases same : (baseSlot ^^^ state.slot) &&& phaseFlag = 0
      · exact of_move (.owner (.replaceJoined at_ same)) rfl undecided
          (of_returning rfl)
      · refine of_move (.owner (.replaceOpening at_ same)) rfl undecided ?_
        exact of_move (.owner (.occupy rfl)) rfl rfl (of_returning rfl)
  | occupying index baseSlot =>
      exact of_move (.owner (.occupy at_)) rfl (by simp [decision, at_])
        (of_returning rfl)
  | returning admission =>
      exact of_returning at_

/-- From every state, runs decide any number of calls. -/
theorem all
    (N : BufferSize .w64)
    (state : State Cell Waker)
    (count : Nat) :
    Answers N state count := by
  induction count with
  | zero =>
      exact ⟨[], state, .start, (fun _ member => by cases member), rfl⟩
  | succ count inductionHypothesis =>
      obtain ⟨first, middle, earlier, firstUnreleased, firstCount⟩ :=
        inductionHypothesis
      obtain ⟨second, after, later, secondUnreleased, secondCount⟩ :=
        one N middle
      refine ⟨first ++ second, after, earlier.append later, ?_, ?_⟩
      · intro taken member
        rcases List.mem_append.mp member with inFirst | inSecond
        · exact firstUnreleased taken inFirst
        · exact secondUnreleased taken inSecond
      · rw [decisions, List.filterMap_append, List.length_append]
        exact congrArg₂ (· + ·) firstCount secondCount

end Answers

/-! ## The capacity -/

/--
From a state in which no range is live, however the tasks fall into ranges
and whenever those are bounded, exactly `capacity` calls are accepted and all
later ones are refused until a range is released; runs decide as many calls
as one likes; and no call is refused in such a state.
-/
theorem capacity_exact
    (N : BufferSize .w64)
    (small : N.size ≤ 1024)
    (buffer : Nat → Cell)
    (start : State Cell Waker)
    (reachable : Reachable N buffer start)
    (vacant : start.Vacant) :
    (∀ (trace : List (State Cell Waker × Action Cell Waker))
        (after : State Cell Waker),
      TransitionSystem.Run (step N) start trace after →
      Unreleased trace →
      decisions N trace =
        List.replicate
            (min (start.capacity N) (decisions N trace).length)
            .accepted ++
          List.replicate
            ((decisions N trace).length - start.capacity N)
            .refused) ∧
      (∀ count, Answers N start count) ∧
      decision N (start, .owner) ≠ some .refused := by
  have phase := Reachable.phaseInvariant reachable
  have filling := Filling.of_vacant phase vacant
  have atEnd : windowEnd N start.accepted = start.accepted + start.capacity N :=
    windowEnd_eq N start.accepted
  have positive := lt_windowEnd N start.accepted
  refine ⟨?_, Answers.all N start, ?_⟩
  · intro trace after run unreleased
    obtain ⟨_, within, accepted, refused, taken, counted, exhausted⟩ :=
      exists_decisions small reachable filling run unreleased
    have length : (decisions N trace).length = accepted + refused := by
      rw [taken, List.length_append, List.length_replicate,
        List.length_replicate]
    rw [atEnd, counted] at within exhausted
    have whole : 0 < refused → accepted = start.capacity N :=
      fun some_ => Nat.add_left_cancel (exhausted some_)
    have firstPart :
        min (start.capacity N) (accepted + refused) = accepted := by
      omega
    have secondPart :
        accepted + refused - start.capacity N = refused := by
      omega
    rw [length, firstPart, secondPart]
    exact taken
  · intro refused
    cases at_ : start.owner with
    | loading write index =>
        rw [decision, at_] at refused
        simp only at refused
        split at refused
        · cases refused
        · rename_i busy
          have full :=
            accepted_eq_windowEnd small reachable filling
              (Nat.le_of_lt positive) at_ busy
          exact absurd full (Nat.ne_of_lt positive)
    | _ => simp [decision, at_] at refused

/-- One task, its range bounded and released again. -/
def releasedRun : List (Action (Option Nat) Nat) :=
  [.call fun _ => some 7, .owner, .owner, .owner, .owner, .owner, .owner,
    .finish none, .setBounds 0, .deoccupyRegion 0]

/-- After one released task 63 calls are accepted, the cached word stale. -/
theorem capacity_exact_releasedRun :
    ∃ state : State (Option Nat) Nat,
      (state.capacity smallestBuffer = 63 ∧ state.occupancy = 1) ∧
      (∀ (trace : List (State (Option Nat) Nat × Action (Option Nat) Nat))
          (after : State (Option Nat) Nat),
        TransitionSystem.Run (step smallestBuffer) state trace after →
        Unreleased trace →
        decisions smallestBuffer trace =
          List.replicate
              (min (state.capacity smallestBuffer)
                (decisions smallestBuffer trace).length)
              .accepted ++
            List.replicate
              ((decisions smallestBuffer trace).length -
                state.capacity smallestBuffer)
              .refused) ∧
        (∀ count, Answers smallestBuffer state count) ∧
        decision smallestBuffer (state, .owner) ≠ some .refused := by
  have performed :
      ((TransitionSystem.execute (step smallestBuffer)
          (initial fun _ => none) releasedRun).map
        fun state =>
          (state.capacity smallestBuffer, state.occupancy,
            state.liveStarts, state.isOpening)) =
        some (63, 1, [], false) := by
    decide +kernel
  obtain ⟨state, reached, values⟩ := Option.map_eq_some_iff.mp performed
  simp only [Prod.mk.injEq] at values
  obtain ⟨capacity, cached, noneLive, noneOpening⟩ := values
  exact ⟨state, ⟨capacity, cached⟩,
    capacity_exact smallestBuffer (by decide) _ state
      (TransitionSystem.Reachable.start.execute reached)
      ⟨noneLive, noneOpening⟩⟩

end StackQueue.Queue
