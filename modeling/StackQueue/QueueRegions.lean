import StackQueue.QueueWindow

namespace StackQueue.Queue

open CircularRegions IntervalChain ListUpdate PackedCounters
open RegionWord (stride)

/-!
# Writes and regions on both pointer widths

What keeps the owner off the live cells, for either pointer width.
`WindowInvariant` says that accepted tasks stay within one buffer of the
stretch where a live range began; a step keeps it as long as a passed
occupancy check is right about the region it looked at.
-/

variable {width : PointerWidth} {Cell Waker : Type}

/-! ## Boundaries -/

/-- The owner looks at the occupancy of a region at its boundary only. -/
def State.ChecksAtBoundary
    (N : BufferSize width)
    (state : State Cell Waker) :
    Prop :=
  ∀ (write : Cell → Cell) (index : Nat),
    state.owner = .checking write index ∨
        state.owner = .loading write index →
    regionSize width N.size ∣ state.accepted

theorem State.ChecksAtBoundary.of_same
    {N : BufferSize width}
    {state after : State Cell Waker}
    (checks : state.ChecksAtBoundary N)
    (owner : after.owner = state.owner)
    (cells : after.cells = state.cells) :
    after.ChecksAtBoundary N := by
  intro write index at_
  rw [owner] at at_
  rw [State.accepted, cells]
  exact checks write index at_

theorem State.ChecksAtBoundary.move
    {N : BufferSize width}
    {state after : State Cell Waker}
    {action : Action Cell Waker}
    (checks : state.ChecksAtBoundary N)
    (phase : PhaseInvariant N state)
    (moved : Move N state action after) :
    after.ChecksAtBoundary N := by
  cases moved with
  | owner moved =>
      cases moved with
      | enterAtBoundary at_ boundary =>
          rw [phase.currentWriteIndex at_, N.and_regionSize_eq_zero_iff]
            at boundary
          exact fun _ _ _ => boundary
      | cachedBusy at_ busy =>
          exact fun _ _ _ => checks _ _ (.inl at_)
      | _ =>
          intro write index at_
          rcases at_ with at_ | at_ <;> cases at_
  | setBounds found stage | deoccupyRegion found stage
  | retry found stage | touch =>
      exact checks.of_same rfl rfl
  | steal found stage =>
      have frame :=
        (Move.steal (N := N) found stage).frame rfl
      exact checks.of_same frame.1 frame.2.2
  | call at_ | finish at_ | register at_ =>
      intro write index at_
      rcases at_ with at_ | at_ <;> cases at_

theorem Reachable.checksAtBoundary
    {N : BufferSize width}
    {buffer : Nat → Cell}
    {state : State Cell Waker}
    (reachable : Reachable N buffer state) :
    state.ChecksAtBoundary N := by
  induction reachable with
  | start =>
      intro write index at_
      rcases at_ with at_ | at_ <;> cases at_
  | next earlier _ taken inductionHypothesis =>
      exact inductionHypothesis.move (Reachable.phaseInvariant earlier)
        (step_move taken)

/-! ## The window -/

/-- The next position is within one buffer of every live range's stretch. -/
def State.HasRoom
    (N : BufferSize width)
    (state : State Cell Waker) :
    Prop :=
  ∀ start ∈ state.liveStarts, state.accepted < stretchAt N start + N.size

/-- The accepted tasks stay within one buffer of the live ranges. -/
structure WindowInvariant
    (N : BufferSize width)
    (state : State Cell Waker) : Prop where
  window :
    ∀ start ∈ state.liveStarts,
      state.accepted ≤ stretchAt N start + N.size
  /-- A write that passed the occupancy check has room. -/
  admitted : state.owner.isAdmitted = true → state.HasRoom N

/-- A check that is passed is right about the region it looked at. -/
def PassedRightly
    (N : BufferSize width)
    (state after : State Cell Waker) :
    Prop :=
  ∀ (write : Cell → Cell) (index : Nat),
    state.owner = .checking write index ∨
        state.owner = .loading write index →
    after.owner = .writing write index →
    state.loads N (regionAt N state.accepted) = 0

namespace WindowInvariant

variable {N : BufferSize width} {state after : State Cell Waker}

/-- Away from a boundary the window is never used up. -/
theorem hasRoom_of_inside
    (invariant : WindowInvariant N state)
    (inside : ¬ regionSize width N.size ∣ state.accepted) :
    state.HasRoom N := by
  intro start live
  apply Nat.lt_of_le_of_ne (invariant.window start live)
  intro atEnd
  rw [← N.regionSize_mul_regionCount] at atEnd
  exact inside (window_end N.regionSize_positive atEnd).1

/-- Where no live range begins in the region, there is room. -/
theorem hasRoom_of_empty
    (invariant : WindowInvariant N state)
    (empty : state.loads N (regionAt N state.accepted) = 0) :
    state.HasRoom N := by
  intro start live
  apply Nat.lt_of_le_of_ne (invariant.window start live)
  intro atEnd
  rw [← N.regionSize_mul_regionCount] at atEnd
  exact load_eq_zero empty start live
    (window_end N.regionSize_positive atEnd).2.symm

/-- A step that ends ranges at most, and accepts nothing. -/
theorem of_fewer
    (invariant : WindowInvariant N state)
    (starts : after.liveStarts ⊆ state.liveStarts)
    (accepted : after.accepted = state.accepted)
    (admitted : after.owner.isAdmitted = true → state.HasRoom N) :
    WindowInvariant N after where
  window := by
    intro start live
    rw [accepted]
    exact invariant.window start (starts live)
  admitted := by
    intro passed start live
    rw [accepted]
    exact admitted passed start (starts live)

theorem of_same
    (invariant : WindowInvariant N state)
    (handles : after.handles = state.handles)
    (cells : after.cells = state.cells)
    (admitted : after.owner.isAdmitted = true → state.HasRoom N) :
    WindowInvariant N after := by
  apply invariant.of_fewer
  case starts =>
    rw [State.liveStarts_congr handles]
    exact List.Subset.refl _
  case accepted =>
    rw [State.accepted, cells, State.accepted]
  case admitted =>
    exact admitted

theorem initial
    {buffer : Nat → Cell} :
    WindowInvariant N (Queue.initial buffer : State Cell Waker) where
  window := by
    intro start live
    cases live
  admitted := by
    intro passed
    cases passed

/-- The owner's moves keep the window. -/
theorem ownerMove
    (invariant : WindowInvariant N state)
    (phase : PhaseInvariant N state)
    (rightly : PassedRightly N state after)
    (moved : OwnerMove N state after) :
    WindowInvariant N after := by
  have notAdmitted
      (owner : Owner Cell)
      (outside : owner.isAdmitted = false) :
      owner.isAdmitted = true → state.HasRoom N := by
    intro passed
    rw [outside] at passed
    cases passed
  cases moved with
  | enterInside at_ inside =>
      refine invariant.of_same rfl rfl fun _ => ?_
      rw [phase.currentWriteIndex at_, Ne,
        N.and_regionSize_eq_zero_iff] at inside
      exact invariant.hasRoom_of_inside inside
  | cachedFree at_ free =>
      exact invariant.of_same rfl rfl fun _ =>
        invariant.hasRoom_of_empty (rightly _ _ (.inl at_) rfl)
  | loadedFree at_ free =>
      exact invariant.of_same rfl rfl fun _ =>
        invariant.hasRoom_of_empty (rightly _ _ (.inr at_) rfl)
  | write at_ =>
      exact invariant.of_same rfl rfl fun _ =>
        invariant.admitted (by rw [at_]; rfl)
  | @add index at_ =>
      have room := invariant.admitted (by rw [at_]; rfl)
      constructor
      case window =>
        intro start live
        have more :
            (state.cells ++ [index]).length = state.accepted + 1 :=
          List.length_append
        change (state.cells ++ [index]).length ≤ _
        rw [more]
        exact room start live
      case admitted =>
        intro passed
        cases passed
  | @occupy index baseSlot at_ =>
      have owner := phase.owner
      rw [at_] at owner
      obtain ⟨position, bit, accepted, indexShape, _⟩ := owner
      constructor
      case window =>
        intro start live
        rw [liveStarts_occupy accepted rfl, List.mem_append,
          List.mem_singleton] at live
        rcases live with earlier | isNew
        · exact invariant.window start earlier
        · subst isNew
          have here : start < stretchAt N start + _ :=
            lt_stretchStart_add N.regionSize_positive start
          have lap :=
            Nat.le_of_dvd N.size_pos N.regionSize_dvd
          change state.accepted ≤ _
          omega
      case admitted =>
        intro passed
        cases passed
  | enterAtBoundary at_ boundary | cachedBusy at_ busy
  | loadedBusy at_ busy | replaceJoined at_ same
  | replaceOpening at_ differ =>
      exact invariant.of_same rfl rfl (notAdmitted _ rfl)

/-- Every step keeps the window while passed checks are right. -/
theorem move
    {action : Action Cell Waker}
    (invariant : WindowInvariant N state)
    (phase : PhaseInvariant N state)
    (rightly :
      ∀ next, OwnerMove N state next → PassedRightly N state next)
    (moved : Move N state action after) :
    WindowInvariant N after := by
  cases moved with
  | owner moved =>
      exact invariant.ownerMove phase (rightly _ moved) moved
  | call at_ | finish at_ | register at_ =>
      refine invariant.of_same rfl rfl ?_
      intro passed
      cases passed
  | setBounds found stage =>
      apply invariant.of_fewer
      case starts =>
        rw [liveStarts_setBounds found stage]
        exact List.Subset.refl _
      case accepted =>
        rfl
      case admitted =>
        exact invariant.admitted
  | deoccupyRegion found stage =>
      have starts := liveStarts_deoccupyRegion (N := N) found stage
      apply invariant.of_fewer
      case starts =>
        intro start live
        exact starts.mem_iff.mpr (List.mem_cons_of_mem _ live)
      case accepted =>
        rfl
      case admitted =>
        exact invariant.admitted
  | retry found stage =>
      exact invariant
  | @steal i batchLimit handle found stage =>
      apply invariant.of_fewer
      case starts =>
        rw [liveStarts_steal found stage]
        exact List.Subset.refl _
      case accepted =>
        unfold Queue.steal
        split <;> rfl
      case admitted =>
        rw [steal_owner]
        exact invariant.admitted
  | touch =>
      exact invariant.of_same rfl rfl invariant.admitted

/-- The region being opened has fewer live ranges than cells. -/
theorem loads_lt
    (invariant : WindowInvariant N state)
    (phase : PhaseInvariant N state)
    {position : Nat}
    (newest : state.accepted = position + 1)
    (covered : state.covered = position) :
    state.loads N (regionAt N position) < regionSize width N.size := by
  apply load_lt N.regionSize_positive phase.liveStarts_nodup
  · intro start live
    have earlier := phase.liveStart_lt_covered live
    rw [covered] at earlier
    exact earlier
  · intro start live
    have window := invariant.window start live
    rw [N.regionSize_mul_regionCount]
    change _ < stretchAt N start + N.size
    omega

/-- Within the window a write reaches no live cell. -/
theorem writesFreeCell
    (invariant : WindowInvariant N state)
    (phase : PhaseInvariant N state) :
    state.WritesFreeCell N := by
  apply phase.writesFreeCell
  intro admitted start live
  have room := invariant.admitted admitted start live
  have below : stretchAt N start ≤ start := stretchStart_le start
  omega

end WindowInvariant

end StackQueue.Queue
