import StackQueue.CircularRegions
import StackQueue.QueuePartition
import StackQueue.RegionWord

namespace StackQueue

/-!
# Regional occupancy

The occupancy word abstracts to the start positions of the live ranges: each
counts one in the region its first cell lies in.  `WordPacksLoads` says that
the shared word packs these loads at the width's stride, modulo its bits; it
holds in every run, for every buffer size and either pointer width.

On a 64-bit target a region has a byte of its own.  While no region holds more
than 255 live ranges the packing is exact there: the word fits its width, and
each of its bytes is the load of one region.
-/

theorem PointerWidth.regionCount_positive (width : PointerWidth) :
    0 < width.regionCount := by
  cases width <;> decide

namespace Queue

open CircularRegions IntervalChain ListUpdate PackedCounters
open RegionWord (stride)

variable {width : PointerWidth} {Cell Waker : Type}

/-- The start positions of the live ranges, oldest first. -/
def State.liveStarts (state : State Cell Waker) : List Nat :=
  (state.handles.filter Handle.isLive).map Handle.first

theorem State.liveStarts_congr
    {state other : State Cell Waker}
    (handles : other.handles = state.handles) :
    other.liveStarts = state.liveStarts := by
  rw [liveStarts, handles, liveStarts]

/-- The region of the cell that a position is written to. -/
abbrev regionAt (N : BufferSize width) (position : Nat) : Nat :=
  CircularRegions.regionOf width.regionCount (regionSize width N.size)
    position

/-- The first position of the stretch of one region around a position. -/
abbrev stretchAt (N : BufferSize width) (position : Nat) : Nat :=
  stretchStart (regionSize width N.size) position

/-- How many live ranges begin in a region. -/
abbrev State.loads
    (N : BufferSize width)
    (state : State Cell Waker) :
    Nat → Nat :=
  load width.regionCount (regionSize width N.size) state.liveStarts

/-! ## Words and positions -/

section Words

variable (N : BufferSize width) (position : Nat)

theorem currentRegion_eq_regionAt :
    currentRegion width N.size (position % N.size) =
      regionAt N position := by
  rw [N.currentRegion_eq]
  conv_lhs =>
    rw [← N.regionSize_mul_regionCount]
  have same :
      regionSize width
          (regionSize width N.size * width.regionCount) =
        regionSize width N.size := by
    rw [N.regionSize_mul_regionCount]
  rw [same]
  exact mod_div_eq_regionOf position

theorem regionAt_lt :
    regionAt N position < width.regionCount :=
  CircularRegions.regionOf_lt width.regionCount_positive position

theorem oneShifted_eq_unit :
    oneShifted width N.size (position % N.size) =
      unit (stride width) (regionAt N position) := by
  rw [RegionWord.oneShifted_eq N (Nat.mod_lt _ N.size_pos),
    currentRegion_eq_regionAt]

/-- The occupancy check reads eight bits from the region's unit on. -/
theorem and_regionMask_eq_zero_iff (word : Nat) :
    word &&& regionMask width N.size (position % N.size) = 0 ↔
      read (stride width) 8 (regionAt N position) word = 0 := by
  rw [RegionWord.and_regionMask_eq_zero_iff N
    (Nat.mod_lt position N.size_pos), currentRegion_eq_regionAt]

end Words

/-! ## The live ranges -/

/-- The index a handle is released at is that of its first position. -/
theorem PhaseInvariant.releaseIndex
    {width : PointerWidth}
    {N : BufferSize width}
    {state : State Cell Waker}
    (invariant : PhaseInvariant N state)
    {i : Nat}
    {handle : Handle}
    {range : CounterRange}
    (found : state.handles[i]? = some handle)
    (stage : handle.stage = .bounded range) :
    range.start &&& (N.size - 1) = handle.first % N.size := by
  rw [invariant.counters handle (List.mem_of_getElem? found) range stage,
    N.and_size_sub_one, N.mod_counter_mod]

/-- A new handle adds its position to the live ranges. -/
theorem liveStarts_occupy
    {state after : State Cell Waker}
    {position baseSlot : Nat}
    (newest : state.accepted = position + 1)
    (handles :
      after.handles =
        state.handles ++ [⟨baseSlot, .unbounded, state.accepted - 1, 0⟩]) :
    after.liveStarts = state.liveStarts ++ [position] := by
  rw [State.liveStarts, handles, newest, List.filter_append,
    List.map_append, Nat.add_sub_cancel]
  rfl

/-- Bounding a range keeps it live. -/
theorem liveStarts_setBounds
    {width : PointerWidth}
    {state : State Cell Waker}
    {i : Nat}
    {handle : Handle}
    (found : state.handles[i]? = some handle)
    (stage : handle.stage = .unbounded) :
    (setBounds width state i handle).liveStarts = state.liveStarts := by
  refine filter_map_set_of_same found ?_ fun _ => rfl
  simp [Handle.isLive, stage]

/-- `deoccupy_region` takes one range off the live ones. -/
theorem liveStarts_deoccupyRegion
    {width : PointerWidth}
    {N : BufferSize width}
    {state : State Cell Waker}
    {i : Nat}
    {handle : Handle}
    {range : CounterRange}
    (found : state.handles[i]? = some handle)
    (stage : handle.stage = .bounded range) :
    state.liveStarts.Perm
      (handle.first ::
        (deoccupyRegion N state i handle range).liveStarts) := by
  refine filter_map_set_perm found ?_ ?_
  · simp [Handle.isLive, stage]
  · by_cases last :
      state.innerOccupancy =
        oneShifted width N.size (range.start &&& (N.size - 1))
    · simp [Handle.isLive, last]
    · simp [Handle.isLive, last]

/-- The wake loop starts and ends no live range. -/
theorem liveStarts_steal
    {state : State Cell Waker}
    {i batchLimit : Nat}
    {handle : Handle}
    (found : state.handles[i]? = some handle)
    (stage : handle.stage = .draining batchLimit) :
    (steal state i handle batchLimit).liveStarts = state.liveStarts := by
  have wasReleased : handle.isLive = false := by
    simp [Handle.isLive, stage]
  unfold steal
  split
  · refine filter_map_set_of_same found ?_ fun _ => rfl
    rw [wasReleased]
    rfl
  · refine filter_map_set_of_same found ?_ fun _ => rfl
    rw [wasReleased]
    by_cases spent : batchLimit - 1 = 0
    · simp [Handle.isLive, spent]
    · simp [Handle.isLive, spent]

/-! ## The shared word -/

/-- Without live ranges the packed loads are zero. -/
theorem pack_load_nil (N : BufferSize width) :
    pack (stride width) width.regionCount
        (load width.regionCount (regionSize width N.size) []) =
      0 := by
  simp [load, pack]

/-- One more live range raises the packed loads by its region's unit. -/
theorem pack_load_cons
    (N : BufferSize width)
    (start : Nat)
    (starts : List Nat) :
    pack (stride width) width.regionCount
        (load width.regionCount (regionSize width N.size)
          (start :: starts)) =
      pack (stride width) width.regionCount
          (load width.regionCount (regionSize width N.size) starts) +
        unit (stride width) (regionAt N start) := by
  refine pack_increment (regionAt_lt N start) ?_ fun region differs => ?_
  · rw [load_cons, if_pos rfl]
  · rw [load_cons, if_neg differs.symm, Nat.add_zero]

theorem pack_load_perm
    (N : BufferSize width)
    {starts others : List Nat}
    (same : starts.Perm others) :
    pack (stride width) width.regionCount
        (load width.regionCount (regionSize width N.size) starts) =
      pack (stride width) width.regionCount
        (load width.regionCount (regionSize width N.size) others) := by
  congr 1
  funext region
  exact load_perm same region

/-- A region's unit is a bit of the word. -/
theorem unit_lt_word
    {region : Nat}
    (below : region < width.regionCount) :
    unit (stride width) region < 2 ^ width.bits := by
  refine Nat.pow_lt_pow_right (by decide) ?_
  cases width <;>
    simp only [stride, PointerWidth.regionCount, PointerWidth.bits]
      at below ⊢ <;>
    omega

/-- The shared word holds the packed loads, modulo its width. -/
def State.WordPacksLoads
    (N : BufferSize width)
    (state : State Cell Waker) :
    Prop :=
  state.innerOccupancy =
    pack (stride width) width.regionCount (state.loads N) %
      2 ^ width.bits

namespace State.WordPacksLoads

variable {N : BufferSize width} {state after : State Cell Waker}

theorem of_same
    (packs : state.WordPacksLoads N)
    (starts : after.liveStarts = state.liveStarts)
    (word : after.innerOccupancy = state.innerOccupancy) :
    after.WordPacksLoads N := by
  unfold State.WordPacksLoads State.loads
  rw [word, starts]
  exact packs

/-- A new range adds its unit. -/
theorem of_occupied
    (packs : state.WordPacksLoads N)
    {position : Nat}
    (starts : after.liveStarts = state.liveStarts ++ [position])
    (word :
      after.innerOccupancy =
        wrappingAdd width state.innerOccupancy
          (unit (stride width) (regionAt N position))) :
    after.WordPacksLoads N := by
  unfold State.WordPacksLoads State.loads at packs ⊢
  rw [word, packs, starts,
    pack_load_perm N (List.perm_append_singleton position _),
    pack_load_cons, wrappingAdd, Nat.add_mod_mod, Nat.add_comm]

/-- A released range takes its unit off again. -/
theorem of_released
    (packs : state.WordPacksLoads N)
    {position : Nat}
    (starts : state.liveStarts.Perm (position :: after.liveStarts))
    (word :
      after.innerOccupancy =
        wrappingSub width state.innerOccupancy
          (unit (stride width) (regionAt N position))) :
    after.WordPacksLoads N := by
  have small := unit_lt_word (regionAt_lt N position)
  unfold State.WordPacksLoads State.loads at packs ⊢
  rw [word, packs, pack_load_perm N starts, pack_load_cons, wrappingSub,
    Nat.mod_add_mod, Nat.add_assoc,
    Nat.add_sub_cancel' (Nat.le_of_lt small), Nat.add_mod_right]

/-- Every step keeps the packing. -/
theorem move
    {action : Action Cell Waker}
    (packs : state.WordPacksLoads N)
    (phase : PhaseInvariant N state)
    (moved : Move N state action after) :
    after.WordPacksLoads N := by
  cases moved with
  | owner moved =>
      cases moved with
      | @occupy index baseSlot at_ =>
          have owner := phase.owner
          rw [at_] at owner
          obtain ⟨position, bit, accepted, indexShape, _⟩ := owner
          refine packs.of_occupied (liveStarts_occupy accepted rfl) ?_
          rw [indexShape, oneShifted_eq_unit]
      | _ => exact packs.of_same rfl rfl
  | setBounds found stage =>
      exact packs.of_same (liveStarts_setBounds found stage) rfl
  | @deoccupyRegion i handle range found stage =>
      refine packs.of_released (liveStarts_deoccupyRegion found stage) ?_
      rw [Queue.deoccupyRegion, phase.releaseIndex found stage,
        oneShifted_eq_unit]
  | steal found stage =>
      refine packs.of_same (liveStarts_steal found stage) ?_
      unfold Queue.steal
      split <;> rfl
  | _ => exact packs.of_same rfl rfl

end State.WordPacksLoads

/-- The packing holds in every run, whatever the buffer size. -/
theorem Reachable.wordPacksLoads
    {N : BufferSize width}
    {buffer : Nat → Cell}
    {state : State Cell Waker}
    (reachable : Reachable N buffer state) :
    state.WordPacksLoads N := by
  induction reachable with
  | start =>
      exact
        (congrArg (· % 2 ^ width.bits) (pack_load_nil N)).symm
  | next earlier _ taken inductionHypothesis =>
      exact inductionHypothesis.move (Reachable.phaseInvariant earlier)
        (step_move taken)

/-! ## Bytes on a 64-bit target -/

/-- The region of the cell that a position is written to. -/
def regionOf (N : BufferSize .w64) (position : Nat) : Nat :=
  position / regionSize .w64 N.size % 8

/-- The first position of the stretch of one region around a position. -/
def regionStart (N : BufferSize .w64) (position : Nat) : Nat :=
  position / regionSize .w64 N.size * regionSize .w64 N.size

/-- How many of the given start positions lie in a region. -/
def regionLoad
    (N : BufferSize .w64)
    (starts : List Nat)
    (region : Nat) :
    Nat :=
  starts.countP fun position => regionOf N position == region

/-- One unit for the region of each of the given start positions. -/
def occupancyWord (N : BufferSize .w64) (starts : List Nat) : Nat :=
  (starts.map fun position => unit 8 (regionOf N position)).sum

section Regions

variable (N : BufferSize .w64) (position : Nat)

/-- The region a step computes from a buffer index is the position's region. -/
theorem currentRegion_mod :
    currentRegion .w64 N.size (position % N.size) =
      regionOf N position :=
  currentRegion_eq_regionAt N position

theorem regionOf_lt :
    regionOf N position < 8 :=
  regionAt_lt N position

theorem and_regionMask_mod_eq_zero_iff (word : Nat) :
    word &&& regionMask .w64 N.size (position % N.size) = 0 ↔
      field 8 (regionOf N position) word = 0 :=
  and_regionMask_eq_zero_iff N position word

theorem regionStart_le :
    regionStart N position ≤ position :=
  stretchStart_le position

theorem lt_regionStart_add :
    position < regionStart N position + regionSize .w64 N.size :=
  lt_stretchStart_add N.regionSize_positive position

/-- A boundary is the only place where the window can be used up. -/
theorem boundary_of_window_end
    {position start : Nat}
    (atEnd : position = regionStart N start + N.size) :
    position % N.size % regionSize .w64 N.size = 0 ∧
      regionOf N position = regionOf N start := by
  have turned :
      position =
        stretchStart (regionSize .w64 N.size) start +
          regionSize .w64 N.size * PointerWidth.regionCount .w64 := by
    rw [N.regionSize_mul_regionCount]
    exact atEnd
  obtain ⟨boundary, sameRegion⟩ :=
    window_end N.regionSize_positive turned
  refine ⟨?_, sameRegion⟩
  rw [Nat.mod_mod_of_dvd position N.regionSize_dvd]
  exact Nat.mod_eq_zero_of_dvd boundary

end Regions

section Loads

variable {N : BufferSize .w64} {starts others : List Nat}

theorem occupancyWord_perm
    (same : starts.Perm others) :
    occupancyWord N starts = occupancyWord N others :=
  (same.map _).sum_eq

theorem regionLoad_perm
    (same : starts.Perm others)
    (region : Nat) :
    regionLoad N starts region = regionLoad N others region :=
  load_perm same region

theorem occupancyWord_cons
    (N : BufferSize .w64)
    (start : Nat)
    (starts : List Nat) :
    occupancyWord N (start :: starts) =
      unit 8 (regionOf N start) + occupancyWord N starts := by
  simp [occupancyWord]

theorem regionLoad_cons
    (N : BufferSize .w64)
    (start : Nat)
    (starts : List Nat)
    (region : Nat) :
    regionLoad N (start :: starts) region =
      regionLoad N starts region +
        if regionOf N start = region then 1 else 0 :=
  load_cons start starts region

/-- A region carries load exactly when a live range starts there. -/
theorem regionLoad_eq_zero_iff
    {region : Nat} :
    regionLoad N starts region = 0 ↔
      ∀ start ∈ starts, regionOf N start ≠ region :=
  load_eq_zero_iff

/-- The occupancy word packs the load of each region. -/
theorem occupancyWord_eq_pack
    (N : BufferSize .w64)
    (starts : List Nat) :
    occupancyWord N starts = pack 8 8 (regionLoad N starts) := by
  induction starts with
  | nil =>
      exact (pack_load_nil N).symm
  | cons start rest inductionHypothesis =>
      rw [occupancyWord_cons, inductionHypothesis, Nat.add_comm]
      exact (pack_load_cons N start rest).symm

/-- While every region fits its byte, the whole word fits 64 bits. -/
theorem occupancyWord_lt
    (fits : ∀ region, regionLoad N starts region ≤ 255) :
    occupancyWord N starts < 2 ^ 64 := by
  rw [occupancyWord_eq_pack]
  exact RegionWord.pack_lt_word .w64 fits

/-- While every region fits its byte, a byte of the word is its load. -/
theorem field_occupancyWord
    (fits : ∀ region, regionLoad N starts region ≤ 255)
    {region : Nat}
    (inWord : region < 8) :
    field 8 region (occupancyWord N starts) =
      regionLoad N starts region := by
  rw [occupancyWord_eq_pack]
  exact field_pack (fun q _ => Nat.lt_succ_of_le (fits q)) inWord

end Loads

/-- To pack the loads is to be the occupancy of the live ranges. -/
theorem State.wordPacksLoads_iff
    {N : BufferSize .w64}
    {state : State Cell Waker} :
    state.WordPacksLoads N ↔
      state.innerOccupancy =
        occupancyWord N state.liveStarts % 2 ^ 64 := by
  rw [occupancyWord_eq_pack]
  rfl

/-- The shared word is the occupancy of the live ranges modulo its width. -/
theorem Reachable.innerOccupancy
    {N : BufferSize .w64}
    {buffer : Nat → Cell}
    {state : State Cell Waker}
    (reachable : Reachable N buffer state) :
    state.innerOccupancy =
      occupancyWord N state.liveStarts % 2 ^ 64 :=
  State.wordPacksLoads_iff.mp (Reachable.wordPacksLoads reachable)

end Queue

end StackQueue
