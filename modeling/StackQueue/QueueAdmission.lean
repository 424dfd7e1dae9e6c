import StackQueue.QueueRegions

namespace StackQueue.Queue

open PackedCounters

/-!
# Admission

When a call is refused, and what a refusal and a last release say about the
live ranges.  For every buffer size a refusal means that some range is live,
and the release of the last live range enters the wake loop.  For buffers of
at most 1024 cells the verdict is exact: on a region boundary a call is
refused exactly when a live range began in that region, and the arithmetic on
the occupancy word stays within one byte.
-/

variable {Cell Waker : Type}

/-! ## Boundary checks -/

/-- Occupancy checks happen on region boundaries only. -/
theorem Reachable.checkedAtBoundary
    {width : PointerWidth}
    {N : BufferSize width}
    {buffer : Nat → Cell}
    {state : State Cell Waker}
    (reachable : Reachable N buffer state)
    {write : Cell → Cell}
    {index : Nat}
    (at_ :
      state.owner = .checking write index ∨
        state.owner = .loading write index) :
    index &&& (regionSize width N.size - 1) = 0 := by
  induction reachable generalizing write index with
  | start =>
      rcases at_ with at_ | at_ <;> cases at_
  | next earlier _ taken inductionHypothesis =>
      cases step_move taken with
      | owner moved =>
          cases moved with
          | enterAtBoundary before boundary =>
              rcases at_ with at_ | at_
              · cases at_
                exact boundary
              · cases at_
          | cachedBusy before busy =>
              rcases at_ with at_ | at_
              · cases at_
              · cases at_
                exact inductionHypothesis (Or.inl before)
          | _ => rcases at_ with at_ | at_ <;> cases at_
      | setBounds found stage | deoccupyRegion found stage
      | retry found stage | touch =>
          exact inductionHypothesis at_
      | steal found stage =>
          rw [steal_owner] at at_
          exact inductionHypothesis at_
      | _ => rcases at_ with at_ | at_ <;> cases at_

/-! ## Which calls open a range -/

section Opening

variable
    {width : PointerWidth}
    {N : BufferSize width}
    {state : State Cell Waker}

/-- The owner's comparison of slots compares their phases. -/
theorem PhaseInvariant.joins_iff
    (phase : PhaseInvariant N state)
    {index baseSlot : Nat}
    (at_ : state.owner = .replacing index baseSlot) :
    (baseSlot ^^^ state.slot) &&& phaseFlag = 0 ↔
      state.isOpening = false := by
  have owner := phase.owner
  rw [at_] at owner
  obtain ⟨_, basePhase, ownPhase, _, _, base, slot, _⟩ := owner
  simp only [State.isOpening, at_]
  rw [base, slot, xor_and_phaseFlag_eq_zero_iff, phaseOf_encodeSlot,
    phaseOf_encodeSlot]
  simp

/-- A task added while no range is unbounded opens one. -/
theorem PhaseInvariant.opens_of_no_unbounded
    (phase : PhaseInvariant N state)
    {index : Nat}
    (at_ : state.owner = .adding index)
    (noUnbounded : state.hasUnbounded = false) :
    phaseOf state.innerSlot ≠ phaseOf state.slot := by
  have owner := phase.owner
  rw [at_] at owner
  obtain ⟨_, ownPhase, slot, parity⟩ := owner
  rw [slot, phaseOf_encodeSlot]
  intro same
  rw [noUnbounded] at parity
  exact absurd (parity.mpr same) (by decide)

/-- An unbounded range is live. -/
theorem State.live_of_hasUnbounded
    (unbounded : state.hasUnbounded = true) :
    state.liveStarts ≠ [] := by
  obtain ⟨handle, member, isUnbounded⟩ := List.any_eq_true.mp unbounded
  have live : handle.isLive = true := by
    have stage : handle.stage = .unbounded := by
      simpa [Handle.isUnbounded] using isUnbounded
    simp [Handle.isLive, stage]
  have isStart : handle.first ∈ state.liveStarts :=
    List.mem_map_of_mem (List.mem_filter.mpr ⟨member, live⟩)
  exact List.ne_nil_of_mem isStart

end Opening

/-! ## Refusals and last releases -/

section AnyBuffer

variable
    {width : PointerWidth}
    {N : BufferSize width}
    {buffer : Nat → Cell}
    {state : State Cell Waker}

/-- A call is refused only while some range is live. -/
theorem Reachable.live_of_busy
    (reachable : Reachable N buffer state)
    {index : Nat}
    (busy : state.innerOccupancy &&& regionMask width N.size index ≠ 0) :
    state.liveStarts ≠ [] := by
  intro noneLive
  apply busy
  have packs : state.WordPacksLoads N := Reachable.wordPacksLoads reachable
  unfold State.WordPacksLoads State.loads at packs
  rw [packs, noneLive, pack_load_nil, Nat.zero_mod]
  exact Nat.zero_and _

/-- The release of the last live range enters the wake loop. -/
theorem Reachable.last_release_drains
    (reachable : Reachable N buffer state)
    {i : Nat}
    {handle : Handle}
    {range : CounterRange}
    (found : state.handles[i]? = some handle)
    (stage : handle.stage = .bounded range)
    (last : (deoccupyRegion N state i handle range).liveStarts = []) :
    state.innerOccupancy =
      oneShifted width N.size (range.start &&& (N.size - 1)) := by
  have phase := Reachable.phaseInvariant reachable
  have starts := liveStarts_deoccupyRegion (N := N) found stage
  rw [last] at starts
  have packs : state.WordPacksLoads N := Reachable.wordPacksLoads reachable
  unfold State.WordPacksLoads State.loads at packs
  rw [packs, starts.eq_singleton, pack_load_cons, pack_load_nil,
    Nat.zero_add, phase.releaseIndex found stage, oneShifted_eq_unit]
  exact Nat.mod_eq_of_lt (unit_lt_word (regionAt_lt N handle.first))

end AnyBuffer

/-! ## Exactness for buffers of at most 1024 cells -/

namespace OccupancyInvariant

variable
    {N : BufferSize .w64}
    {state after : State Cell Waker}

/-- A zero byte says that no live range began in the region. -/
theorem busy_iff
    (invariant : OccupancyInvariant N state)
    (word :
      state.innerOccupancy =
        occupancyWord N state.liveStarts % 2 ^ 64)
    (position : Nat) :
    state.innerOccupancy &&&
          regionMask .w64 N.size (position % N.size) ≠
        0 ↔
      ∃ start ∈ state.liveStarts,
        regionOf N start = regionOf N position := by
  rw [Ne, and_regionMask_mod_eq_zero_iff,
    field_innerOccupancy invariant.fits word (regionOf_lt N position),
    regionLoad_eq_zero_iff]
  simp

/-- A free cached byte says that no live range began in the region. -/
theorem none_of_cachedFree
    (invariant : OccupancyInvariant N state)
    {position : Nat}
    (free :
      state.occupancy &&& regionMask .w64 N.size (position % N.size) =
        0) :
    ∀ start ∈ state.liveStarts,
      regionOf N start ≠ regionOf N position := by
  rw [and_regionMask_mod_eq_zero_iff] at free
  have cached := invariant.cached _ (regionOf_lt N position)
  exact regionLoad_eq_zero_iff.mp (by omega)

/--
The verdict of a boundary check, at the access that decides it: refused
exactly when some live range began in the region.
-/
theorem verdict
    (invariant : OccupancyInvariant N state)
    (phase : PhaseInvariant N state)
    (word :
      state.innerOccupancy =
        occupancyWord N state.liveStarts % 2 ^ 64)
    {write : Cell → Cell}
    {index : Nat}
    (at_ :
      state.owner = .checking write index ∨
        state.owner = .loading write index)
    (taken : ownerStep N state = some after)
    (decided : after.owner ≠ .loading write index) :
    (after.owner = .returning .queueFull ∨
        after.owner = .writing write index) ∧
      (after.owner = .returning .queueFull ↔
        ∃ start ∈ state.liveStarts,
          regionOf N start = currentRegion .w64 N.size index) := by
  have isNext := phase.checkedIndex at_
  subst isNext
  rw [currentRegion_mod]
  rcases at_ with at_ | at_
  · simp only [ownerStep, at_] at taken
    split at taken
    · rename_i free
      cases taken
      refine ⟨Or.inr rfl, (fun refused => by cases refused), ?_⟩
      rintro ⟨start, live, same⟩
      exact absurd same (invariant.none_of_cachedFree free start live)
    · cases taken
      exact absurd rfl decided
  · simp only [ownerStep, at_] at taken
    split at taken
    · rename_i free
      cases taken
      refine ⟨Or.inr rfl, (fun refused => by cases refused),
        fun busy => ?_⟩
      exact absurd free ((invariant.busy_iff word _).mpr busy)
    · rename_i busy
      cases taken
      exact ⟨Or.inl rfl, fun _ => (invariant.busy_iff word _).mp busy,
        fun _ => rfl⟩

end OccupancyInvariant

section Arithmetic

variable
    {N : BufferSize .w64}
    {buffer : Nat → Cell}
    {state after : State Cell Waker}

/-- The whole word is the occupancy of the live ranges. -/
theorem Reachable.innerOccupancy_eq
    (small : N.size ≤ 1024)
    (reachable : Reachable N buffer state) :
    state.innerOccupancy = occupancyWord N state.liveStarts := by
  have fits := (Reachable.occupancyInvariant small reachable).fits
  rw [Reachable.innerOccupancy reachable,
    Nat.mod_eq_of_lt (occupancyWord_lt fits)]

theorem Reachable.field_innerOccupancy
    (small : N.size ≤ 1024)
    (reachable : Reachable N buffer state)
    {region : Nat}
    (inWord : region < 8) :
    field 8 region state.innerOccupancy =
      regionLoad N state.liveStarts region :=
  Queue.field_innerOccupancy
    (Reachable.occupancyInvariant small reachable).fits
    (Reachable.innerOccupancy reachable) inWord

/-- Counting a range raises one byte that is not full. -/
theorem Reachable.occupy_exact
    (small : N.size ≤ 1024)
    (reachable : Reachable N buffer state)
    (afterReachable : Reachable N buffer after)
    {position : Nat}
    (starts : after.liveStarts = state.liveStarts ++ [position]) :
    field 8 (regionOf N position) state.innerOccupancy < 255 ∧
      after.innerOccupancy =
        state.innerOccupancy + unit 8 (regionOf N position) := by
  have same := List.perm_append_singleton position state.liveStarts
  have load :=
    (Reachable.occupancyInvariant small afterReachable).fits
      (regionOf N position)
  rw [starts, regionLoad_perm same, regionLoad_cons, if_pos rfl] at load
  constructor
  · rw [reachable.field_innerOccupancy small (regionOf_lt N position)]
    omega
  · rw [afterReachable.innerOccupancy_eq small,
      reachable.innerOccupancy_eq small, starts, occupancyWord_perm same,
      occupancyWord_cons, Nat.add_comm]

/-- Releasing a range lowers one byte that is not empty. -/
theorem Reachable.deoccupy_exact
    (small : N.size ≤ 1024)
    (reachable : Reachable N buffer state)
    (afterReachable : Reachable N buffer after)
    {position : Nat}
    (starts : state.liveStarts.Perm (position :: after.liveStarts)) :
    0 < field 8 (regionOf N position) state.innerOccupancy ∧
      after.innerOccupancy + unit 8 (regionOf N position) =
        state.innerOccupancy := by
  constructor
  · rw [reachable.field_innerOccupancy small (regionOf_lt N position),
      regionLoad_perm starts, regionLoad_cons, if_pos rfl]
    exact Nat.succ_pos _
  · rw [afterReachable.innerOccupancy_eq small,
      reachable.innerOccupancy_eq small, occupancyWord_perm starts,
      occupancyWord_cons, Nat.add_comm]

end Arithmetic

end StackQueue.Queue
