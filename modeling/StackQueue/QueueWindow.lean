import StackQueue.CircularBuffer
import StackQueue.QueueOccupancy

namespace StackQueue.Queue

open CircularRegions IntervalChain PackedCounters

/-!
# The reuse window

While no region holds more than 255 live ranges the packing of the occupancy
word is exact.  `OccupancyInvariant` then adds that the owner's cached word
never undercounts a region, and that the accepted tasks never run past the
region where a live range begins, one buffer later: the window can only be
used up at a region boundary, and there the occupancy check looks at exactly
the region of the oldest live range.

A buffer of at most 1024 cells has at most 128 cells in a region, so its runs
meet the side condition by themselves.
-/

variable {N : BufferSize .w64} {Cell Waker : Type}

/-- The owner has passed the occupancy check and not counted the task yet. -/
def Owner.isAdmitted : Owner Cell → Bool
  | .writing _ _ | .adding _ => true
  | _ => false

/-- The owner never starts a 256th live range in one region. -/
def Roomy
    (N : BufferSize .w64)
    (state : State Cell Waker) :
    Action Cell Waker → Prop
  | .owner =>
      ∀ index baseSlot,
        state.owner = .occupying index baseSlot →
        regionLoad N state.liveStarts
            (currentRegion .w64 N.size index) <
          255
  | _ => True

/-- The states of the runs in which no region overflows its byte. -/
abbrev RoomyReachable
    (N : BufferSize .w64)
    (buffer : Nat → Cell)
    (state : State Cell Waker) :
    Prop :=
  TransitionSystem.Reachable (step N) (Roomy N) (initial buffer) state

/-- The next position is within one buffer of every live range's region. -/
def State.Admitted
    (N : BufferSize .w64)
    (state : State Cell Waker) :
    Prop :=
  ∀ start ∈ state.liveStarts,
    state.accepted < regionStart N start + N.size

/-- The occupancy words and the window of a state. -/
structure OccupancyInvariant
    (N : BufferSize .w64)
    (state : State Cell Waker) : Prop where
  /-- Every region's load fits its byte. -/
  fits :
    ∀ region, regionLoad N state.liveStarts region ≤ 255
  /-- The cached word never undercounts a region. -/
  cached :
    ∀ region,
      region < 8 →
      regionLoad N state.liveStarts region ≤
        field 8 region state.occupancy
  /-- The accepted tasks stay within the window of every live range. -/
  window :
    ∀ start ∈ state.liveStarts,
      state.accepted ≤ regionStart N start + N.size
  /-- A write that passed the occupancy check has room in every window. -/
  admitted :
    state.owner.isAdmitted = true → state.Admitted N

/-! ## Consequences of the phase protocol -/

namespace PhaseInvariant

variable {state : State Cell Waker}

/-- The ranges' first positions, oldest range first, increase. -/
theorem firsts_increasing
    {width : PointerWidth}
    {N : BufferSize width}
    (phase : PhaseInvariant N state) :
    (state.handles.map Handle.first).Pairwise (· < ·) := by
  have increasing := phase.chain.firsts_increasing
  rw [State.spans, List.map_map] at increasing
  exact increasing

theorem liveStarts_nodup
    {width : PointerWidth}
    {N : BufferSize width}
    (phase : PhaseInvariant N state) :
    state.liveStarts.Nodup := by
  have increasing := phase.firsts_increasing
  have live : state.liveStarts.Pairwise (· < ·) :=
    increasing.sublist (List.filter_sublist.map Handle.first)
  exact live.imp fun below => Nat.ne_of_lt below

/-- A handle's range holds accepted tasks only. -/
theorem first_lt_covered
    {width : PointerWidth}
    {N : BufferSize width}
    (phase : PhaseInvariant N state)
    {handle : Handle}
    (member : handle ∈ state.handles) :
    handle.first < state.covered := by
  have bounds :=
    phase.chain.bounds (List.mem_map_of_mem (f := Handle.span state.covered)
      member)
  have start :
      (Handle.span state.covered handle).first = handle.first :=
    rfl
  omega

theorem covered_le_accepted
    {width : PointerWidth}
    {N : BufferSize width}
    (phase : PhaseInvariant N state) :
    state.covered ≤ state.accepted := by
  have := phase.accepted_eq
  omega

theorem liveStart_lt_covered
    {width : PointerWidth}
    {N : BufferSize width}
    (phase : PhaseInvariant N state)
    {start : Nat}
    (live : start ∈ state.liveStarts) :
    start < state.covered := by
  obtain ⟨handle, member, shape⟩ := List.mem_map.mp live
  subst shape
  exact phase.first_lt_covered (List.mem_of_mem_filter member)

/-- The index of an occupancy check is that of the next position. -/
theorem checkedIndex
    {width : PointerWidth}
    {N : BufferSize width}
    (phase : PhaseInvariant N state)
    {write : Cell → Cell}
    {index : Nat}
    (at_ :
      state.owner = .checking write index ∨
        state.owner = .loading write index) :
    index = state.accepted % N.size := by
  have owner := phase.owner
  rcases at_ with at_ | at_
  · rw [at_] at owner
    exact owner.1
  · rw [at_] at owner
    exact owner.1

/-- The index the owner computes on entering a call. -/
theorem currentWriteIndex
    {width : PointerWidth}
    {N : BufferSize width}
    (phase : PhaseInvariant N state)
    {write : Cell → Cell}
    (at_ : state.owner = .entered write) :
    state.currentWriteIndex N = state.accepted % N.size := by
  have owner := phase.owner
  rw [at_] at owner
  obtain ⟨bit, slot, _⟩ := owner
  rw [State.currentWriteIndex, slot, slotIndex_encodeSlot]

end PhaseInvariant

/-! ## Preservation -/

/-- While every region fits its byte, the shared bytes are the loads. -/
theorem field_innerOccupancy
    {state : State Cell Waker}
    (fits : ∀ region, regionLoad N state.liveStarts region ≤ 255)
    (word :
      state.innerOccupancy =
        occupancyWord N state.liveStarts % 2 ^ 64)
    {region : Nat}
    (inWord : region < 8) :
    field 8 region state.innerOccupancy =
      regionLoad N state.liveStarts region := by
  rw [word, Nat.mod_eq_of_lt (occupancyWord_lt fits),
    field_occupancyWord fits inWord]

namespace OccupancyInvariant

variable {state after : State Cell Waker}

/-- An empty region at the next position's boundary leaves room. -/
theorem admitted_of_empty
    (invariant : OccupancyInvariant N state)
    (empty :
      regionLoad N state.liveStarts (regionOf N state.accepted) = 0) :
    state.Admitted N := by
  intro start live
  refine Nat.lt_of_le_of_ne (invariant.window start live) ?_
  intro atEnd
  exact regionLoad_eq_zero_iff.mp empty start live
    (boundary_of_window_end N atEnd).2.symm

/-- Off a boundary there is room. -/
theorem admitted_of_inside
    (invariant : OccupancyInvariant N state)
    (inside :
      state.accepted % N.size % regionSize .w64 N.size ≠ 0) :
    state.Admitted N := by
  intro start live
  refine Nat.lt_of_le_of_ne (invariant.window start live) ?_
  intro atEnd
  exact inside (boundary_of_window_end N atEnd).1

/-- A step that starts no range keeps the loads and the window. -/
theorem of_fewer
    (invariant : OccupancyInvariant N state)
    (fewer : ∀ start ∈ after.liveStarts, start ∈ state.liveStarts)
    (loads :
      ∀ region,
        regionLoad N after.liveStarts region ≤
          regionLoad N state.liveStarts region)
    (accepted : after.accepted = state.accepted)
    (cached :
      ∀ region,
        region < 8 →
        regionLoad N state.liveStarts region ≤
          field 8 region after.occupancy)
    (admitted :
      after.owner.isAdmitted = true → state.Admitted N) :
    OccupancyInvariant N after where
  fits := fun region =>
    Nat.le_trans (loads region) (invariant.fits region)
  cached := fun region inWord =>
    Nat.le_trans (loads region) (cached region inWord)
  window := fun start live => by
    rw [accepted]
    exact invariant.window start (fewer start live)
  admitted := fun passed start live => by
    rw [accepted]
    exact admitted passed start (fewer start live)

/-- A step that keeps the live ranges and the accepted tasks. -/
theorem of_same
    (invariant : OccupancyInvariant N state)
    (handles : after.handles = state.handles)
    (cells : after.cells = state.cells)
    (cached :
      ∀ region,
        region < 8 →
        regionLoad N state.liveStarts region ≤
          field 8 region after.occupancy)
    (admitted :
      after.owner.isAdmitted = true → state.Admitted N) :
    OccupancyInvariant N after := by
  have starts := State.liveStarts_congr handles
  have accepted : after.accepted = state.accepted := by
    rw [State.accepted, cells, State.accepted]
  refine invariant.of_fewer ?_ ?_ accepted cached admitted
  · rw [starts]
    exact fun start live => live
  · intro region
    rw [starts]

/-- Counting an admitted task keeps the window. -/
theorem of_accepted
    (invariant : OccupancyInvariant N state)
    (handles : after.handles = state.handles)
    (occupancy : after.occupancy = state.occupancy)
    (room : state.Admitted N)
    (owner : after.owner.isAdmitted = false)
    (accepted : after.accepted = state.accepted + 1) :
    OccupancyInvariant N after := by
  have starts := State.liveStarts_congr handles
  constructor
  case fits =>
    rw [starts]
    exact invariant.fits
  case cached =>
    rw [starts, occupancy]
    exact invariant.cached
  case window =>
    intro start live
    rw [starts] at live
    rw [accepted]
    exact room start live
  case admitted =>
    intro passed
    rw [owner] at passed
    cases passed

/-- Counting the newest range keeps the window when its region has room. -/
theorem of_occupied
    (invariant : OccupancyInvariant N state)
    {position : Nat}
    (newest : state.accepted = position + 1)
    (starts : after.liveStarts = state.liveStarts ++ [position])
    (below :
      regionLoad N state.liveStarts (regionOf N position) < 255)
    (word :
      after.innerOccupancy =
        occupancyWord N after.liveStarts % 2 ^ 64)
    (copied : after.occupancy = after.innerOccupancy)
    (owner : after.owner.isAdmitted = false)
    (accepted : after.accepted = state.accepted) :
    OccupancyInvariant N after := by
  have load (region : Nat) :
      regionLoad N after.liveStarts region =
        regionLoad N state.liveStarts region +
          if regionOf N position = region then 1 else 0 := by
    rw [starts,
      regionLoad_perm (List.perm_append_singleton position _),
      regionLoad_cons]
  have fits (region : Nat) :
      regionLoad N after.liveStarts region ≤ 255 := by
    have := invariant.fits region
    rw [load]
    split
    · rename_i here
      subst here
      omega
    · omega
  constructor
  case fits =>
    exact fits
  case cached =>
    intro region inWord
    rw [copied]
    exact Nat.le_of_eq (field_innerOccupancy fits word inWord).symm
  case window =>
    intro start live
    rw [accepted]
    rw [starts, List.mem_append, List.mem_singleton] at live
    rcases live with earlier | isNew
    · exact invariant.window start earlier
    · subst isNew
      have := lt_regionStart_add N start
      have := N.eight_mul_regionSize
      omega
  case admitted =>
    intro passed
    rw [owner] at passed
    cases passed

theorem initial
    {buffer : Nat → Cell} :
    OccupancyInvariant N
      (Queue.initial buffer : State Cell Waker) where
  fits := by
    intro region
    exact Nat.zero_le _
  cached := by
    intro region _
    exact Nat.zero_le _
  window := by
    intro start live
    cases live
  admitted := by
    intro passed
    cases passed

/-- The owner's moves keep the invariant. -/
theorem ownerMove
    (invariant : OccupancyInvariant N state)
    (phase : PhaseInvariant N state)
    (word :
      state.innerOccupancy =
        occupancyWord N state.liveStarts % 2 ^ 64)
    (roomy : Roomy N state .owner)
    (moved : OwnerMove N state after) :
    OccupancyInvariant N after := by
  have exactWord :
      ∀ region,
        region < 8 →
        regionLoad N state.liveStarts region ≤
          field 8 region state.innerOccupancy :=
    fun region inWord =>
      Nat.le_of_eq (field_innerOccupancy invariant.fits word inWord).symm
  cases moved with
  | enterAtBoundary at_ boundary =>
      exact invariant.of_same rfl rfl invariant.cached nofun
  | enterInside at_ inside =>
      refine invariant.of_same rfl rfl invariant.cached fun _ => ?_
      refine invariant.admitted_of_inside ?_
      rw [N.and_regionSize_sub_one, phase.currentWriteIndex at_] at inside
      exact inside
  | cachedFree at_ free =>
      refine invariant.of_same rfl rfl invariant.cached fun _ => ?_
      refine invariant.admitted_of_empty ?_
      rw [phase.checkedIndex (.inl at_), and_regionMask_mod_eq_zero_iff]
        at free
      have := invariant.cached _ (regionOf_lt N state.accepted)
      omega
  | cachedBusy at_ busy =>
      exact invariant.of_same rfl rfl invariant.cached nofun
  | loadedFree at_ free =>
      refine invariant.of_same rfl rfl exactWord fun _ => ?_
      refine invariant.admitted_of_empty ?_
      rw [phase.checkedIndex (.inr at_), and_regionMask_mod_eq_zero_iff]
        at free
      have := exactWord _ (regionOf_lt N state.accepted)
      omega
  | loadedBusy at_ busy =>
      exact invariant.of_same rfl rfl exactWord nofun
  | write at_ =>
      have room := invariant.admitted (by rw [at_]; rfl)
      exact invariant.of_same rfl rfl invariant.cached fun _ => room
  | add at_ =>
      have room := invariant.admitted (by rw [at_]; rfl)
      exact invariant.of_accepted rfl rfl room rfl List.length_append
  | replaceJoined at_ same =>
      exact invariant.of_same rfl rfl invariant.cached nofun
  | replaceOpening at_ differ =>
      exact invariant.of_same rfl rfl invariant.cached nofun
  | @occupy index baseSlot at_ =>
      have owner := phase.owner
      rw [at_] at owner
      obtain ⟨position, bit, accepted, indexShape, _⟩ := owner
      have below := roomy index baseSlot at_
      rw [indexShape, currentRegion_mod] at below
      have packs :=
        (State.wordPacksLoads_iff.mpr word).move phase
          (.owner (.occupy at_))
      exact invariant.of_occupied accepted
        (liveStarts_occupy accepted rfl) below
        (State.wordPacksLoads_iff.mp packs) rfl rfl rfl

/-- Every step of the system keeps the invariant. -/
theorem move
    {action : Action Cell Waker}
    (invariant : OccupancyInvariant N state)
    (phase : PhaseInvariant N state)
    (word :
      state.innerOccupancy =
        occupancyWord N state.liveStarts % 2 ^ 64)
    (roomy : Roomy N state action)
    (moved : Move N state action after) :
    OccupancyInvariant N after := by
  cases moved with
  | owner moved =>
      exact invariant.ownerMove phase word roomy moved
  | call at_ =>
      exact invariant.of_same rfl rfl invariant.cached nofun
  | finish at_ =>
      exact invariant.of_same rfl rfl invariant.cached nofun
  | register at_ =>
      exact invariant.of_same rfl rfl invariant.cached nofun
  | setBounds found stage =>
      have starts :
          (Queue.setBounds .w64 state _ _).liveStarts = state.liveStarts :=
        liveStarts_setBounds found stage
      refine invariant.of_fewer ?_ ?_ rfl invariant.cached
        invariant.admitted
      · intro start live
        rw [starts] at live
        exact live
      · intro region
        rw [starts]
  | deoccupyRegion found stage =>
      have starts := liveStarts_deoccupyRegion (N := N) found stage
      refine invariant.of_fewer ?_ ?_ rfl invariant.cached
        invariant.admitted
      · intro start live
        exact starts.mem_iff.mpr (List.mem_cons_of_mem _ live)
      · intro region
        rw [regionLoad_perm starts, regionLoad_cons]
        exact Nat.le_add_right _ _
  | retry found stage =>
      exact invariant
  | @steal i batchLimit handle found stage =>
      have starts := liveStarts_steal found stage
      have frame :
          (Queue.steal state i handle batchLimit).cells = state.cells ∧
            (Queue.steal state i handle batchLimit).occupancy =
              state.occupancy ∧
            (Queue.steal state i handle batchLimit).owner =
              state.owner := by
        unfold Queue.steal
        split <;> exact ⟨rfl, rfl, rfl⟩
      obtain ⟨cells, occupancy, owner⟩ := frame
      refine invariant.of_fewer ?_ ?_ ?_ ?_ ?_
      · intro start live
        rw [starts] at live
        exact live
      · intro region
        rw [starts]
      · rw [State.accepted, cells, State.accepted]
      · rw [occupancy]
        exact invariant.cached
      · rw [owner]
        exact invariant.admitted
  | touch =>
      exact invariant.of_same rfl rfl invariant.cached
        invariant.admitted

end OccupancyInvariant

/-- The invariant holds in every run in which no region overflows. -/
theorem RoomyReachable.occupancyInvariant
    {buffer : Nat → Cell}
    {state : State Cell Waker}
    (reachable : RoomyReachable N buffer state) :
    OccupancyInvariant N state := by
  induction reachable with
  | start =>
      exact .initial
  | next earlier roomy taken inductionHypothesis =>
      exact inductionHypothesis.move (Reachable.phaseInvariant earlier.any)
        (Reachable.innerOccupancy earlier.any) roomy (step_move taken)

/-! ## Live cells -/

/--
A write in progress goes to a cell of no live range; equivalently its position
is less than one buffer beyond the first position of every live range.
-/
def State.WritesFreeCell
    {width : PointerWidth}
    (N : BufferSize width)
    (state : State Cell Waker) :
    Prop :=
  ∀ (write : Cell → Cell) (index : Nat),
    state.owner = .writing write index →
    ∀ handle ∈ state.handles,
      handle.isLive = true →
      state.accepted < handle.first + N.size ∧
        ∀ position,
          (handle.span state.accepted).Covers position →
          position % N.size ≠ index

/-- A write less than one buffer beyond the live ranges reaches none of them. -/
theorem PhaseInvariant.writesFreeCell
    {width : PointerWidth}
    {N : BufferSize width}
    {state : State Cell Waker}
    (phase : PhaseInvariant N state)
    (near :
      state.owner.isAdmitted = true →
      ∀ start ∈ state.liveStarts, state.accepted < start + N.size) :
    state.WritesFreeCell N := by
  intro write index at_ handle member live
  have isStart : handle.first ∈ state.liveStarts :=
    List.mem_map_of_mem (List.mem_filter.mpr ⟨member, live⟩)
  have below := near (by rw [at_]; rfl) handle.first isStart
  refine ⟨below, fun position covers => ?_⟩
  have owner := phase.owner
  rw [at_] at owner
  have covered : state.covered = state.accepted := by
    rw [State.covered, at_]
  have bounds :=
    phase.chain.bounds
      (List.mem_map_of_mem (f := Handle.span state.covered) member)
  rw [covered] at bounds
  obtain ⟨fromFirst, beforeLast⟩ := covers
  have start :
      (Handle.span state.accepted handle).first = handle.first :=
    rfl
  rw [owner.1]
  exact CircularBuffer.mod_ne_of_window (by omega) (by omega)

/-- Within the window a write reaches no live cell. -/
theorem OccupancyInvariant.writesFreeCell
    {state : State Cell Waker}
    (invariant : OccupancyInvariant N state)
    (phase : PhaseInvariant N state) :
    state.WritesFreeCell N := by
  apply phase.writesFreeCell
  intro admitted start live
  have room := invariant.admitted admitted start live
  have below := regionStart_le N start
  omega

/-! ## Buffers of at most 1024 cells -/

/-- The live ranges in the region being opened leave out one of its cells. -/
theorem OccupancyInvariant.regionLoad_lt
    {state : State Cell Waker}
    (invariant : OccupancyInvariant N state)
    (phase : PhaseInvariant N state)
    {position : Nat}
    (newest : state.accepted = position + 1)
    (covered : state.covered = position) :
    regionLoad N state.liveStarts (regionOf N position) <
      regionSize .w64 N.size := by
  apply load_lt N.regionSize_positive phase.liveStarts_nodup
  · intro start live
    have earlier := phase.liveStart_lt_covered live
    rw [covered] at earlier
    exact earlier
  · intro start live
    have window := invariant.window start live
    have lap := N.eight_mul_regionSize
    change position < regionStart N start + regionSize .w64 N.size * 8
    omega

/-- In a buffer of at most 1024 cells no region can overflow its byte. -/
theorem RoomyReachable.roomy
    (small : N.size ≤ 1024)
    {buffer : Nat → Cell}
    {state : State Cell Waker}
    (reachable : RoomyReachable N buffer state)
    (action : Action Cell Waker) :
    Roomy N state action := by
  cases action with
  | owner =>
      intro index baseSlot at_
      have phase := Reachable.phaseInvariant reachable.any
      have owner := phase.owner
      rw [at_] at owner
      obtain ⟨position, bit, accepted, indexShape, _⟩ := owner
      have covered : state.covered = position := by
        simp [State.covered, at_, accepted]
      have below :=
        (RoomyReachable.occupancyInvariant reachable).regionLoad_lt phase
          accepted covered
      have eight := N.eight_mul_regionSize
      rw [indexShape, currentRegion_mod]
      omega
  | _ => trivial

/-- All runs of such a buffer meet the side condition by themselves. -/
theorem Reachable.roomyReachable
    (small : N.size ≤ 1024)
    {buffer : Nat → Cell}
    {state : State Cell Waker}
    (reachable : Reachable N buffer state) :
    RoomyReachable N buffer state :=
  TransitionSystem.Reachable.strengthen
    (fun earlier _ => RoomyReachable.roomy small earlier _) reachable

theorem Reachable.roomy
    (small : N.size ≤ 1024)
    {buffer : Nat → Cell}
    {state : State Cell Waker}
    (reachable : Reachable N buffer state)
    (action : Action Cell Waker) :
    Roomy N state action :=
  RoomyReachable.roomy small (reachable.roomyReachable small) action

theorem Reachable.occupancyInvariant
    (small : N.size ≤ 1024)
    {buffer : Nat → Cell}
    {state : State Cell Waker}
    (reachable : Reachable N buffer state) :
    OccupancyInvariant N state :=
  RoomyReachable.occupancyInvariant (reachable.roomyReachable small)

end StackQueue.Queue
