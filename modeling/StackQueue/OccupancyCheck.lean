import StackQueue.QueueAdmission
import StackQueue.QueueOverflow

namespace StackQueue.Queue

open PackedCounters

/-!
# The cached occupancy check

`check_regional_occupancy` first tests the owner's cached word and loads the
shared word only when the cached byte is not zero.  Its verdict is compared
with that of a check that loads the shared word every time.  The two can only
differ when a cached byte is zero and the shared byte is not, and while no
region overflows its byte this never happens: releases only lower the shared
bytes, and whatever raises one refreshes the cached word.

From 2048 cells on a region can overflow.  Then the cached word reads zero for
a region that holds 256 live ranges, the release of one of them makes the
shared byte 255, and the next check of that region goes wrong.
-/

variable {Cell Waker : Type}

/-- What an occupancy check answers. -/
inductive Verdict where
  /-- `Ok(())`. -/
  | free
  /-- `Err(QueueFull)`. -/
  | queueFull
  deriving Repr, DecidableEq

/-- The reference check: load the shared word and test the region's byte. -/
def loadedVerdict
    (N : BufferSize .w64)
    (state : State Cell Waker)
    (index : Nat) :
    Verdict :=
  if state.innerOccupancy &&& regionMask .w64 N.size index = 0 then
    .free
  else
    .queueFull

/-- Where the owner goes on to once `check_regional_occupancy` returns. -/
def Verdict.continues
    (write : Cell → Cell)
    (index : Nat) :
    Verdict → Owner Cell
  | .free => .writing write index
  | .queueFull => .returning .queueFull

/--
When `check_regional_occupancy` returns, its verdict is the one of a load at
that moment; and whatever the cached word marks as free, so does the shared
one.
-/
structure CheckAgrees
    (N : BufferSize .w64)
    (state : State Cell Waker) : Prop where
  verdict :
    ∀ (write : Cell → Cell) (index : Nat) (after : State Cell Waker),
      state.owner = .checking write index ∨
        state.owner = .loading write index →
      ownerStep N state = some after →
      after.owner ≠ .loading write index →
      after.owner =
        (loadedVerdict N state index).continues write index
  neverFreesOccupied :
    ∀ index,
      index < N.size →
      state.occupancy &&& regionMask .w64 N.size index = 0 →
      state.innerOccupancy &&& regionMask .w64 N.size index = 0

variable {N : BufferSize .w64}

/-- The verdicts agree once the cached word frees no occupied region. -/
theorem CheckAgrees.of_neverFreesOccupied
    {state : State Cell Waker}
    (phase : PhaseInvariant N state)
    (frees :
      ∀ index,
        index < N.size →
        state.occupancy &&& regionMask .w64 N.size index = 0 →
        state.innerOccupancy &&& regionMask .w64 N.size index = 0) :
    CheckAgrees N state where
  neverFreesOccupied := frees
  verdict := by
    intro write index after at_ taken decided
    have inBuffer : index < N.size := by
      rw [phase.checkedIndex at_]
      exact Nat.mod_lt _ N.size_pos
    rcases at_ with at_ | at_
    · simp only [ownerStep, at_] at taken
      split at taken
      · rename_i free
        cases taken
        simp only [loadedVerdict, if_pos (frees index inBuffer free)]
        rfl
      · cases taken
        exact absurd rfl decided
    · simp only [ownerStep, at_] at taken
      split at taken
      · rename_i free
        cases taken
        simp only [loadedVerdict, if_pos free]
        rfl
      · rename_i busy
        cases taken
        simp only [loadedVerdict, if_neg busy]
        rfl

/-- While no region overflows, a byte of the cached word covers its load. -/
theorem OccupancyInvariant.neverFreesOccupied
    {state : State Cell Waker}
    (invariant : OccupancyInvariant N state)
    (word :
      state.innerOccupancy =
        occupancyWord N state.liveStarts % 2 ^ 64)
    {index : Nat}
    (inBuffer : index < N.size)
    (free : state.occupancy &&& regionMask .w64 N.size index = 0) :
    state.innerOccupancy &&& regionMask .w64 N.size index = 0 := by
  rw [← Nat.mod_eq_of_lt inBuffer, and_regionMask_mod_eq_zero_iff]
    at free ⊢
  have inWord := regionOf_lt N index
  have covered := invariant.cached _ inWord
  rw [free] at covered
  rw [field_innerOccupancy invariant.fits word inWord]
  exact Nat.le_zero.mp covered

/-! ## A cached word that goes wrong -/

section Overflow

variable
    {buffer : Nat → Cell}
    {before : State Cell Waker}

/-- With no range to join, a live range can be released. -/
theorem exists_released
    (reachable : Reachable N buffer before)
    (quiet : Quiet before)
    {start : Nat}
    (live : start ∈ before.liveStarts) :
    ∃ after : State Cell Waker,
      Reachable N buffer after ∧
        after.owner = .idle ∧
        before.liveStarts.Perm (start :: after.liveStarts) ∧
        after.accepted = before.accepted ∧
        after.occupancy = before.occupancy := by
  obtain ⟨handle, filtered, first⟩ := List.mem_map.mp live
  obtain ⟨member, isLive⟩ := List.mem_filter.mp filtered
  obtain ⟨i, found⟩ := List.getElem?_of_mem member
  have notUnbounded := List.any_eq_false.mp quiet.noUnbounded handle member
  cases stage : handle.stage with
  | unbounded =>
      exact absurd (by simp [Handle.isUnbounded, stage]) notUnbounded
  | bounded range =>
      refine ⟨_, reachable.move (.deoccupyRegion found stage), quiet.idle,
        ?_, rfl, rfl⟩
      rw [← first]
      exact liveStarts_deoccupyRegion found stage
  | draining batchLimit | released =>
      simp [Handle.isLive, stage] at isLive

/-- On a boundary the owner comes to its occupancy check. -/
theorem exists_checking
    (reachable : Reachable N buffer before)
    (idle : before.owner = .idle)
    (boundary : regionSize .w64 N.size ∣ before.accepted) :
    ∃ after : State Cell Waker,
      Reachable N buffer after ∧
        after.owner = .checking id (before.accepted % N.size) ∧
        after.occupancy = before.occupancy ∧
        after.innerOccupancy = before.innerOccupancy := by
  have entered :
      Reachable N buffer { before with owner := .entered id } :=
    reachable.move (.call idle)
  have index :
      before.currentWriteIndex N = before.accepted % N.size :=
    (Reachable.phaseInvariant entered).currentWriteIndex rfl
  have atBoundary :
      before.currentWriteIndex N &&& (regionSize .w64 N.size - 1) = 0 := by
    have eight := N.eight_mul_regionSize
    rw [N.and_regionSize_sub_one, index,
      Nat.mod_mod_of_dvd _ ⟨8, by omega⟩]
    exact Nat.mod_eq_zero_of_dvd boundary
  refine ⟨_, entered.move (.owner (.enterAtBoundary rfl atBoundary)),
    ?_, rfl, rfl⟩
  rw [← index]
  rfl

/--
From 2048 cells on, in some run the cached word marks a region free that the
shared word marks occupied, and the owner is about to test it.
-/
theorem exists_disagreement
    (Waker : Type)
    (buffer : Nat → Cell)
    (large : 2048 ≤ N.size) :
    ∃ (state : State Cell Waker) (index : Nat),
      Reachable N buffer state ∧
        state.owner = .checking id index ∧
        state.occupancy &&& regionMask .w64 N.size index = 0 ∧
        state.innerOccupancy &&& regionMask .w64 N.size index ≠ 0 := by
  have eight := N.eight_mul_regionSize
  have wideRegion : 256 ≤ regionSize .w64 N.size := by omega
  obtain ⟨full, fullReachable, fullQuiet, fullAccepted, starts, inLast⟩ :=
    exists_full Waker buffer large
  have count : full.liveStarts.length = 256 := by
    rw [starts, List.length_range']
  have blind :=
    fullReachable.blind (occupancyWord_of_full inLast count)
  -- up to the last position before that region
  obtain ⟨near, nearReachable, nearQuiet, nearAccepted, nearStarts,
      sameWord⟩ :=
    exists_passedRanges fullReachable fullQuiet blind (N.size - 257)
  have atNear : near.accepted + 1 = 15 * regionSize .w64 N.size := by omega
  rw [← sameWord] at blind
  obtain ⟨kept, keptReachable, keptQuiet, keptAccepted, keptStarts,
      copied⟩ :=
    exists_keptRange nearReachable nearQuiet blind.unobstructed
  rw [nearStarts] at keptStarts
  have inSixth : regionOf N near.accepted = 6 := by
    have stretch : regionOf N near.accepted = 14 % 8 :=
      regionOf_of_stretch (by omega) (by omega)
    exact stretch
  have keptWord :
      occupancyWord N kept.liveStarts = 256 * unit 8 7 + unit 8 6 := by
    rw [keptStarts, occupancyWord_perm (List.perm_append_singleton _ _),
      occupancyWord_cons, occupancyWord_of_region inLast, count, inSixth,
      Nat.add_comm]
  have cached : kept.occupancy = unit 8 6 := by
    rw [copied, Reachable.innerOccupancy keptReachable, keptWord]
    rfl
  -- the oldest of the 256 ranges is released
  have oldest :
      7 * regionSize .w64 N.size ∈ kept.liveStarts := by
    rw [keptStarts, starts, List.mem_append, List.mem_range'_1]
    omega
  obtain ⟨released, releasedReachable, idle, fewer, releasedAccepted,
      sameCached⟩ :=
    exists_released keptReachable keptQuiet oldest
  have releasedWord :
      released.innerOccupancy = 255 * unit 8 7 + unit 8 6 := by
    have inRegion : regionOf N (7 * regionSize .w64 N.size) = 7 := by
      have stretch : regionOf N (7 * regionSize .w64 N.size) = 7 % 8 :=
        regionOf_of_stretch (Nat.le_refl _) (by omega)
      exact stretch
    have total : occupancyWord N kept.liveStarts = _ :=
      occupancyWord_perm fewer
    rw [keptWord, occupancyWord_cons, inRegion] at total
    have left :
        occupancyWord N released.liveStarts =
          255 * unit 8 7 + unit 8 6 := by
      omega
    rw [Reachable.innerOccupancy releasedReachable, left]
    rfl
  have atBoundary : released.accepted = 15 * regionSize .w64 N.size := by
    rw [releasedAccepted, keptAccepted, atNear]
  obtain ⟨checking, checkingReachable, at_, cachedThere, sharedThere⟩ :=
    exists_checking releasedReachable idle
      ⟨15, by rw [atBoundary, Nat.mul_comm]⟩
  have last : regionOf N released.accepted = 7 := by
    have stretch : regionOf N released.accepted = 15 % 8 :=
      regionOf_of_stretch (by omega) (by omega)
    exact stretch
  refine ⟨checking, _, checkingReachable, at_, ?_, ?_⟩
  · rw [and_regionMask_mod_eq_zero_iff, last, cachedThere, sameCached,
      cached]
    rfl
  · rw [Ne, and_regionMask_mod_eq_zero_iff, last, sharedThere,
      releasedWord]
    decide

end Overflow

/-! ## The check and its reference -/

/--
The cached check agrees with a check that always loads while no region
overflows its byte; and this holds of all runs exactly for the buffers of at
most 1024 cells.
-/
theorem cached_check_agrees
    (N : BufferSize .w64)
    (buffer : Nat → Cell) :
    (∀ state : State Cell Waker,
      RoomyReachable N buffer state → CheckAgrees N state) ∧
    ((∀ state : State Cell Waker,
      Reachable N buffer state → CheckAgrees N state) ↔
      N.size ≤ 1024) := by
  have roomy :
      ∀ state : State Cell Waker,
        RoomyReachable N buffer state → CheckAgrees N state := by
    intro state reachable
    have phase := Reachable.phaseInvariant reachable.any
    have word := Reachable.innerOccupancy reachable.any
    have invariant := RoomyReachable.occupancyInvariant reachable
    exact .of_neverFreesOccupied phase fun index inBuffer =>
      invariant.neverFreesOccupied word inBuffer
  refine ⟨roomy, ?_, ?_⟩
  · intro always
    by_contra above
    obtain ⟨state, index, reachable, at_, free, busy⟩ :=
      exists_disagreement Waker buffer (N.large_of_not_small above)
    have inBuffer : index < N.size := by
      rw [(Reachable.phaseInvariant reachable).checkedIndex (Or.inl at_)]
      exact Nat.mod_lt _ N.size_pos
    exact busy ((always state reachable).neverFreesOccupied index inBuffer
      free)
  · intro small state reachable
    exact roomy state (Reachable.roomyReachable small reachable)

/--
In a buffer of 2048 cells some check answers that a region is free while the
shared word, loaded at that moment, marks it occupied.
-/
theorem overflowingBuffer_disagrees :
    overflowingBuffer.size = 2048 ∧
      ∃ (state after : State (Option Nat) Nat) (index : Nat),
        Reachable overflowingBuffer (fun _ => none) state ∧
          state.owner = .checking id index ∧
          ownerStep overflowingBuffer state = some after ∧
          after.owner = .writing id index ∧
          loadedVerdict overflowingBuffer state index = .queueFull ∧
          ¬ CheckAgrees overflowingBuffer state := by
  have large : 2048 ≤ overflowingBuffer.size := Nat.le_of_eq rfl
  refine ⟨rfl, ?_⟩
  obtain ⟨state, index, reachable, at_, free, busy⟩ :=
    exists_disagreement Nat (fun _ => (none : Option Nat)) large
  have taken := (OwnerMove.cachedFree at_ free).taken
  have loaded :
      loadedVerdict overflowingBuffer state index = .queueFull :=
    if_neg busy
  refine ⟨state, _, index, reachable, at_, taken, rfl, loaded,
    fun agrees => ?_⟩
  have same :=
    agrees.verdict id index _ (Or.inl at_) taken fun isLoading => by
      cases isLoading
  rw [loaded] at same
  cases same

end StackQueue.Queue
