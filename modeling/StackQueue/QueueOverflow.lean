import StackQueue.QueueEpisodes

namespace StackQueue.Queue

open IntervalChain PackedCounters

/-!
# Region overflow

From 2048 cells on, a region has at least 256 cells, so 256 ranges of one task
each can be live in it.  In the last region their count carries off the top of
the occupancy word: the word reads zero, and the owner passes every boundary
until it writes over the oldest of them.

The run is assembled from the episodes of `QueueEpisodes`, which go through as
long as the word reads zero at every boundary.
-/

variable {N : BufferSize .w64} {Cell Waker : Type}

/-- A word that reads zero hides all ranges. -/
theorem Reachable.blind
    {buffer : Nat → Cell}
    {state : State Cell Waker}
    (reachable : Reachable N buffer state)
    (readsZero : occupancyWord N state.liveStarts % 2 ^ 64 = 0) :
    Blind .w64 state.innerOccupancy := by
  rw [Reachable.innerOccupancy reachable, readsZero]
  exact blind_zero .w64

/-! ## The overflowing run -/

theorem occupancyWord_of_region
    {starts : List Nat}
    {region : Nat}
    (inRegion : ∀ start ∈ starts, regionOf N start = region) :
    occupancyWord N starts = starts.length * unit 8 region := by
  rw [occupancyWord,
    List.map_congr_left (g := fun _ => unit 8 region)
      fun start member => by rw [inRegion start member],
    List.map_const', List.sum_replicate, Nat.nsmul_eq_mul]

/-- The positions of a stretch of one region lie in that region. -/
theorem regionOf_of_stretch
    {stretch position : Nat}
    (fromStart : stretch * regionSize .w64 N.size ≤ position)
    (beforeStop :
      position <
        stretch * regionSize .w64 N.size + regionSize .w64 N.size) :
    regionOf N position = stretch % 8 := by
  have quotient : position / regionSize .w64 N.size = stretch :=
    Nat.div_eq_of_lt_le fromStart (by rw [Nat.add_mul]; omega)
  rw [regionOf, quotient]

/--
From 2048 cells on, 256 ranges of one task each can be live in the last
region, and the word reads zero.
-/
theorem exists_full
    (Waker : Type)
    (buffer : Nat → Cell)
    (large : 2048 ≤ N.size) :
    ∃ full : State Cell Waker,
      Reachable N buffer full ∧
        Quiet full ∧
        full.accepted = 7 * regionSize .w64 N.size + 256 ∧
        full.liveStarts =
          List.range' (7 * regionSize .w64 N.size) 256 ∧
        ∀ start ∈ full.liveStarts, regionOf N start = 7 := by
  have eight := N.eight_mul_regionSize
  have empty : Reachable N buffer (initial buffer : State Cell Waker) :=
    .start
  obtain ⟨atLast, atLastReachable, atLastQuiet, accepted, noneLive, word⟩ :=
    exists_passedRanges empty ⟨rfl, rfl⟩ (blind_zero .w64)
      (7 * regionSize .w64 N.size)
  have atBoundary : atLast.accepted = 7 * regionSize .w64 N.size := by
    rw [accepted]
    exact Nat.zero_add _
  have wideRegion : 256 ≤ regionSize .w64 N.size := by omega
  have blind : Blind .w64 atLast.innerOccupancy := by
    rw [word]
    exact blind_zero .w64
  obtain ⟨full, fullReachable, fullQuiet, fullAccepted, starts⟩ :=
    exists_keptRanges atLastReachable atLastQuiet blind
      ⟨7, by rw [atBoundary, Nat.mul_comm]⟩ wideRegion
  have noRanges : atLast.liveStarts = [] := noneLive
  rw [noRanges, List.nil_append] at starts
  rw [atBoundary] at fullAccepted starts
  refine ⟨full, fullReachable, fullQuiet, fullAccepted, starts, ?_⟩
  intro start member
  rw [starts, List.mem_range'_1] at member
  exact regionOf_of_stretch member.1
    (Nat.lt_of_lt_of_le member.2 (Nat.add_le_add_left wideRegion _))

/-- While the last region holds 256 ranges alone, the word reads zero. -/
theorem occupancyWord_of_full
    {starts : List Nat}
    (inLast : ∀ start ∈ starts, regionOf N start = 7)
    (count : starts.length = 256) :
    occupancyWord N starts % 2 ^ 64 = 0 := by
  rw [occupancyWord_of_region inLast, count]
  rfl

/-- From 2048 cells on, some run overwrites a live range. -/
theorem exists_overwrite
    (buffer : Nat → Cell)
    (large : 2048 ≤ N.size) :
    ∃ state : State Cell Waker,
      Reachable N buffer state ∧ ¬ state.WritesFreeCell N := by
  have eight := N.eight_mul_regionSize
  obtain ⟨full, fullReachable, fullQuiet, fullAccepted, starts, inLast⟩ :=
    exists_full Waker buffer large
  have blind :=
    fullReachable.blind
      (occupancyWord_of_full inLast (by rw [starts, List.length_range']))
  -- once around the buffer
  obtain ⟨around, aroundReachable, aroundQuiet, aroundAccepted,
      aroundStarts, sameWord⟩ :=
    exists_passedRanges fullReachable fullQuiet blind (N.size - 256)
  rw [← sameWord] at blind
  obtain ⟨writing, writingReachable, at_, handles, cells⟩ :=
    exists_admitted aroundReachable aroundQuiet.idle blind.unobstructed id
  refine ⟨writing, writingReachable, fun free => ?_⟩
  have oldest : 7 * regionSize .w64 N.size ∈ around.liveStarts := by
    rw [aroundStarts, starts, List.mem_range'_1]
    omega
  obtain ⟨handle, member, first⟩ := List.mem_map.mp oldest
  obtain ⟨member, live⟩ := List.mem_filter.mp member
  rw [← handles] at member
  have below := (free id _ at_ handle member live).1
  rw [State.accepted, cells, first] at below
  change around.accepted < _ at below
  omega

/--
No write reaches a live cell while no region overflows its byte; and this
holds of all runs exactly for the buffers of at most 1024 cells.
-/
theorem writes_reach_no_live_cell
    (N : BufferSize .w64)
    (buffer : Nat → Cell) :
    (∀ state : State Cell Waker,
      RoomyReachable N buffer state → state.WritesFreeCell N) ∧
    ((∀ state : State Cell Waker,
      Reachable N buffer state → state.WritesFreeCell N) ↔
      N.size ≤ 1024) := by
  have roomy :
      ∀ state : State Cell Waker,
        RoomyReachable N buffer state → state.WritesFreeCell N :=
    fun state reachable =>
      (RoomyReachable.occupancyInvariant reachable).writesFreeCell
        (Reachable.phaseInvariant reachable.any)
  refine ⟨roomy, ?_, ?_⟩
  · intro always
    by_contra above
    obtain ⟨state, reachable, overwrites⟩ :=
      exists_overwrite buffer (N.large_of_not_small above)
    exact overwrites (always state reachable)
  · intro small state reachable
    exact roomy state (Reachable.roomyReachable small reachable)

/-- A buffer of 2048 cells. -/
def overflowingBuffer : BufferSize .w64 :=
  .ofLog .w64 11 (by decide) (by decide)

/-- In a buffer of 2048 cells some run overwrites a live range. -/
theorem overflowingBuffer_overwrites :
    overflowingBuffer.size = 2048 ∧
      ∃ state : State (Option Nat) Nat,
        Reachable overflowingBuffer (fun _ => none) state ∧
          ¬ state.WritesFreeCell overflowingBuffer :=
  ⟨rfl, exists_overwrite _ (Nat.le_of_eq rfl)⟩

end StackQueue.Queue
