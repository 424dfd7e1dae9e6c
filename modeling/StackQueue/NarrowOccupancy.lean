import StackQueue.QueueEpisodes

namespace StackQueue.Queue

open CircularRegions IntervalChain PackedCounters
open RegionWord (stride)

/-!
# The occupancy check on a 32-bit target

On a 32-bit target the four regions count at a stride of four bits, and the
masks read eight: a check sees its own region together with what its
neighbours contribute.  With at most 128 cells in a region the check still
never passes over a live range.

The regions are opened in turn.  A passed check bounds the count of the region
that is being left, so that among the regions only the one being filled and
the last one ever hold more than 15 ranges; `Staggered` states this, and what
it leaves of a neighbour's count is too small to cancel a region's own.
-/

variable {N : BufferSize .w32} {Cell Waker : Type}

/-- The counts of four regions while `head` is being filled. -/
structure Staggered (head : Nat) (count : Nat → Nat) : Prop where
  bounded : ∀ region, region < 4 → count region ≤ 128
  small : ∀ region, region < 3 → region ≠ head → count region ≤ 15
  next : head ≤ 1 → count (head + 1) = 0

namespace Staggered

variable {head : Nat} {count fewer : Nat → Nat}

/-- Fewer ranges are staggered too. -/
theorem mono
    (staggered : Staggered head count)
    (below : ∀ region, region < 4 → fewer region ≤ count region) :
    Staggered head fewer where
  bounded region inWord :=
    Nat.le_trans (below region inWord) (staggered.bounded region inWord)
  small region narrow differs :=
    Nat.le_trans (below region (Nat.lt_succ_of_lt narrow))
      (staggered.small region narrow differs)
  next low := by
    have empty := staggered.next low
    have := below (head + 1) (by omega)
    omega

/-- The region being filled may grow up to its size. -/
theorem grow
    (staggered : Staggered head count)
    (others : ∀ region, region ≠ head → fewer region = count region)
    (room : fewer head ≤ 128) :
    Staggered head fewer where
  bounded region inWord := by
    by_cases here : region = head
    · rw [here]
      exact room
    · rw [others region here]
      exact staggered.bounded region inWord
  small region narrow differs := by
    rw [others region differs]
    exact staggered.small region narrow differs
  next low := by
    rw [others (head + 1) (Nat.succ_ne_self head)]
    exact staggered.next low

theorem pack_eq (count : Nat → Nat) :
    pack 4 4 count =
      count 0 + 16 * count 1 + 256 * count 2 + 4096 * count 3 := by
  simp only [pack, Finset.sum_range_succ, Finset.sum_range_zero, unit]
  omega

/-- Staggered counts never carry out of the word. -/
theorem pack_lt_word
    (staggered : Staggered head count) :
    pack 4 4 count < 2 ^ 32 := by
  have first := staggered.bounded 0 (by decide)
  have second := staggered.bounded 1 (by decide)
  have third := staggered.bounded 2 (by decide)
  have fourth := staggered.bounded 3 (by decide)
  rw [pack_eq]
  omega

/--
A passed check of the next region finds it empty, and leaves the counts
staggered around it.
-/
theorem pass
    (staggered : Staggered head count)
    (inWord : head < 4)
    (free : read 4 8 ((head + 1) % 4) (pack 4 4 count) = 0) :
    count ((head + 1) % 4) = 0 ∧ Staggered ((head + 1) % 4) count := by
  have bounds := staggered.bounded
  have first := bounds 0 (by decide)
  have second := bounds 1 (by decide)
  have third := bounds 2 (by decide)
  have fourth := bounds 3 (by decide)
  have small := staggered.small
  rw [PackedCounters.read, pack_eq] at free
  have heads : head = 0 ∨ head = 1 ∨ head = 2 ∨ head = 3 := by omega
  rcases heads with here | here | here | here
  · subst here
    have next : count 1 = 0 := staggered.next (by decide)
    have two := small 2 (by decide) (by decide)
    change _ / 16 % 256 = 0 at free
    have zero : count 0 ≤ 15 ∧ count 2 = 0 := by omega
    refine ⟨next, bounds, ?_, fun _ => zero.2⟩
    intro region narrow differs
    have cases_ : region = 0 ∨ region = 2 := by omega
    rcases cases_ with rfl | rfl
    · exact zero.1
    · exact two
  · subst here
    have next : count 2 = 0 := staggered.next (by decide)
    have one := small 0 (by decide) (by decide)
    change _ / 256 % 256 = 0 at free
    have below : count 1 ≤ 15 := by omega
    refine ⟨next, bounds, ?_, fun low => absurd low (by decide)⟩
    intro region narrow differs
    have cases_ : region = 0 ∨ region = 1 := by omega
    rcases cases_ with rfl | rfl
    · exact one
    · exact below
  · subst here
    have one := small 0 (by decide) (by decide)
    have two := small 1 (by decide) (by decide)
    change _ / 4096 % 256 = 0 at free
    have zero : count 3 = 0 ∧ count 2 ≤ 15 := by omega
    refine ⟨zero.1, bounds, ?_, fun low => absurd low (by decide)⟩
    intro region narrow _
    have cases_ : region = 0 ∨ region = 1 ∨ region = 2 := by omega
    rcases cases_ with rfl | rfl | rfl
    · exact one
    · exact two
    · exact zero.2
  · subst here
    have one := small 0 (by decide) (by decide)
    have two := small 1 (by decide) (by decide)
    have three := small 2 (by decide) (by decide)
    change _ / 1 % 256 = 0 at free
    have zero : count 0 = 0 ∧ count 1 = 0 := by omega
    refine ⟨zero.1, bounds, ?_, fun _ => zero.2⟩
    intro region narrow differs
    have cases_ : region = 1 ∨ region = 2 := by omega
    rcases cases_ with rfl | rfl
    · exact two
    · exact three

end Staggered

/-- The region being filled: that of the next task once it is admitted. -/
def State.head (N : BufferSize .w32) (state : State Cell Waker) : Nat :=
  if state.owner.isAdmitted then
    regionAt N state.accepted
  else
    lastRegion 4 (regionSize .w32 N.size) state.accepted

/-- The cached word packs staggered counts, none below its region's load. -/
def CachesStaggered
    (N : BufferSize .w32)
    (head : Nat)
    (state : State Cell Waker) :
    Prop :=
  ∃ count : Nat → Nat,
    state.occupancy = pack 4 4 count ∧
      (∀ region, region < 4 → state.loads N region ≤ count region) ∧
      Staggered head count

/-- The window, and the owner's cached word, in a small buffer. -/
structure NarrowInvariant
    (N : BufferSize .w32)
    (state : State Cell Waker) : Prop where
  window : WindowInvariant N state
  cached : CachesStaggered N (state.head N) state

/-! ## Reading the words -/

section Words

variable {state after : State Cell Waker} {head : Nat}

theorem CachesStaggered.loads
    (cached : CachesStaggered N head state) :
    Staggered head (state.loads N) := by
  obtain ⟨count, _, covers, staggered⟩ := cached
  exact staggered.mono covers

/-- The shared word is the packed loads themselves. -/
theorem CachesStaggered.innerOccupancy
    (cached : CachesStaggered N head state)
    (packs : state.WordPacksLoads N) :
    state.innerOccupancy = pack 4 4 (state.loads N) := by
  rw [packs]
  exact Nat.mod_eq_of_lt cached.loads.pack_lt_word

/-- Loading the shared word into the cache. -/
theorem CachesStaggered.load
    (cached : CachesStaggered N head state)
    (packs : state.WordPacksLoads N)
    (starts : after.liveStarts = state.liveStarts)
    (copied : after.occupancy = state.innerOccupancy) :
    CachesStaggered N head after := by
  refine ⟨state.loads N, ?_, ?_, cached.loads⟩
  · rw [copied, cached.innerOccupancy packs]
  · intro region _
    rw [State.loads, starts]

/-- A step that ends ranges at most and leaves the cache alone. -/
theorem CachesStaggered.of_fewer
    (cached : CachesStaggered N head state)
    (fewer :
      ∀ region, region < 4 → after.loads N region ≤ state.loads N region)
    (occupancy : after.occupancy = state.occupancy) :
    CachesStaggered N head after := by
  obtain ⟨count, shape, covers, staggered⟩ := cached
  refine ⟨count, occupancy.trans shape, ?_, staggered⟩
  intro region inWord
  exact Nat.le_trans (fewer region inWord) (covers region inWord)

theorem CachesStaggered.of_same
    (cached : CachesStaggered N head state)
    (handles : after.handles = state.handles)
    (occupancy : after.occupancy = state.occupancy) :
    CachesStaggered N head after := by
  refine cached.of_fewer ?_ occupancy
  intro region _
  rw [State.loads, State.liveStarts_congr handles]

theorem four_mul_regionSize (N : BufferSize .w32) :
    regionSize .w32 N.size * 4 = N.size :=
  N.regionSize_mul_regionCount

theorem State.head_lt
    (N : BufferSize .w32)
    (state : State Cell Waker) :
    state.head N < 4 := by
  unfold State.head
  split
  · exact regionAt_lt N state.accepted
  · exact CircularRegions.regionOf_lt (by decide) _

theorem State.head_of_admitted
    (admitted : state.owner.isAdmitted = true) :
    state.head N = regionAt N state.accepted := by
  rw [State.head, if_pos admitted]

theorem State.head_of_notAdmitted
    (notAdmitted : state.owner.isAdmitted = false) :
    state.head N =
      lastRegion 4 (regionSize .w32 N.size) state.accepted := by
  rw [State.head, notAdmitted]
  rfl

/-- The region being filled stays while no task is admitted or counted. -/
theorem CachesStaggered.of_sameHead
    (cached : CachesStaggered N (state.head N) after)
    (owner : after.owner.isAdmitted = state.owner.isAdmitted)
    (cells : after.cells = state.cells) :
    CachesStaggered N (after.head N) after := by
  rw [State.head, owner, State.accepted, cells]
  exact cached

/-- A new range in the region being filled, with the word copied after it. -/
theorem CachesStaggered.occupy
    {position : Nat}
    (cached : CachesStaggered N (regionAt N position) state)
    (room : state.loads N (regionAt N position) < 128)
    (starts : after.liveStarts = state.liveStarts ++ [position])
    (packs : after.WordPacksLoads N)
    (copied : after.occupancy = after.innerOccupancy) :
    CachesStaggered N (regionAt N position) after := by
  have load (region : Nat) :
      after.loads N region =
        state.loads N region +
          if regionAt N position = region then 1 else 0 := by
    rw [State.loads, starts,
      load_perm (List.perm_append_singleton position _), load_cons]
  have staggered :
      Staggered (regionAt N position) (after.loads N) := by
    apply cached.loads.grow
    case others =>
      intro region differs
      rw [load, if_neg differs.symm, Nat.add_zero]
    case room =>
      rw [load, if_pos rfl]
      exact room
  refine ⟨after.loads N, ?_, fun _ _ => Nat.le_refl _, staggered⟩
  rw [copied, packs]
  exact Nat.mod_eq_of_lt staggered.pack_lt_word

/-- A word that reads zero at a boundary is right about the next region. -/
theorem CachesStaggered.pass
    (cached : CachesStaggered N (state.head N) state)
    (notAdmitted : state.owner.isAdmitted = false)
    (boundary : regionSize .w32 N.size ∣ state.accepted)
    (free :
      state.occupancy &&&
          regionMask .w32 N.size (state.accepted % N.size) =
        0) :
    state.loads N (regionAt N state.accepted) = 0 ∧
      CachesStaggered N (regionAt N state.accepted) state := by
  have next : (state.head N + 1) % 4 = regionAt N state.accepted := by
    rw [State.head_of_notAdmitted notAdmitted]
    exact
      (regionOf_boundary N.regionSize_positive (by decide) boundary).symm
  obtain ⟨count, shape, covers, staggered⟩ := cached
  rw [and_regionMask_eq_zero_iff, shape, ← next] at free
  obtain ⟨empty, moved⟩ := staggered.pass (State.head_lt N state) free
  rw [next] at empty moved
  refine ⟨?_, count, shape, covers, moved⟩
  have := covers _ (regionAt_lt N state.accepted)
  omega

end Words

/-! ## The invariant of a run -/

namespace NarrowInvariant

variable {state after : State Cell Waker}

theorem initial
    {buffer : Nat → Cell} :
    NarrowInvariant N (Queue.initial buffer : State Cell Waker) where
  window := .initial
  cached := by
    refine ⟨fun _ => 0, ?_, ?_, ?_⟩
    · simp [Queue.initial, pack]
    · intro region _
      exact Nat.le_refl 0
    · exact ⟨fun _ _ => Nat.zero_le _, fun _ _ _ => Nat.zero_le _,
        fun _ => rfl⟩

/-- A passed check is right, from the cached and from the shared word. -/
theorem passedRightly
    (invariant : NarrowInvariant N state)
    (phase : PhaseInvariant N state)
    (packs : state.WordPacksLoads N)
    (checks : state.ChecksAtBoundary N)
    (moved : OwnerMove N state after) :
    PassedRightly N state after := by
  intro write index at_ passed
  have boundary := checks write index at_
  have outside : state.owner.isAdmitted = false := by
    rcases at_ with at_ | at_ <;> rw [at_] <;> rfl
  cases moved with
  | cachedFree here free =>
      rw [phase.checkedIndex (.inl here)] at free
      exact (invariant.cached.pass outside boundary free).1
  | loadedFree here free =>
      rw [phase.checkedIndex (.inr here)] at free
      let loaded : State Cell Waker :=
        { state with occupancy := state.innerOccupancy }
      have cached : CachesStaggered N (loaded.head N) loaded :=
        invariant.cached.load packs rfl rfl
      exact (cached.pass outside boundary free).1
  | enterAtBoundary here _ | enterInside here _ =>
      rcases at_ with at_ | at_ <;> rw [here] at at_ <;> cases at_
  | _ => cases passed

/-- The cached word stays staggered through the owner's moves. -/
theorem cached_ownerMove
    (small : N.size ≤ 512)
    (invariant : NarrowInvariant N state)
    (phase : PhaseInvariant N state)
    (packs : state.WordPacksLoads N)
    (checks : state.ChecksAtBoundary N)
    (moved : OwnerMove N state after) :
    CachesStaggered N (after.head N) after := by
  have cached := invariant.cached
  have packsAfter := packs.move phase (.owner moved)
  cases moved with
  | enterInside at_ inside =>
      have same : state.head N = regionAt N state.accepted := by
        rw [phase.currentWriteIndex at_, Ne, N.and_regionSize_eq_zero_iff]
          at inside
        rw [State.head_of_notAdmitted (by rw [at_]; rfl)]
        exact
          (regionOf_inside N.regionSize_positive (by decide) inside).symm
      rw [same] at cached
      exact cached
  | cachedFree at_ free =>
      rw [phase.checkedIndex (.inl at_)] at free
      exact
        (cached.pass (by rw [at_]; rfl) (checks _ _ (.inl at_)) free).2
  | loadedFree at_ free =>
      rw [phase.checkedIndex (.inr at_)] at free
      let loaded : State Cell Waker :=
        { state with occupancy := state.innerOccupancy }
      have loadedCached : CachesStaggered N (loaded.head N) loaded :=
        cached.load packs rfl rfl
      have outside : loaded.owner.isAdmitted = false := by
        change state.owner.isAdmitted = false
        rw [at_]
        rfl
      exact
        (loadedCached.pass outside (checks _ _ (.inr at_)) free).2
  | loadedBusy at_ busy =>
      apply CachesStaggered.of_sameHead
      case cached => exact cached.load packs rfl rfl
      case owner => rw [at_]; rfl
      case cells => rfl
  | @add index at_ =>
      have admitted : state.owner.isAdmitted = true := by
        rw [at_]
        rfl
      rw [State.head_of_admitted admitted] at cached
      rw [State.head_of_notAdmitted rfl]
      have counted :
          lastRegion 4 (regionSize .w32 N.size)
              (state.cells ++ [index]).length =
            regionAt N state.accepted := by
        rw [List.length_append]
        exact lastRegion_succ N.regionSize_positive (by decide) _
      change CachesStaggered N (lastRegion 4 _ (_ ++ [index]).length) _
      rw [counted]
      exact cached.of_same rfl rfl
  | @occupy index baseSlot at_ =>
      have owner := phase.owner
      rw [at_] at owner
      obtain ⟨position, bit, accepted, indexShape, _⟩ := owner
      have covered : state.covered = position := by
        simp [State.covered, at_, accepted]
      have four := four_mul_regionSize N
      have room := invariant.window.loads_lt phase accepted covered
      have heads : state.head N = regionAt N position := by
        rw [State.head_of_notAdmitted (by rw [at_]; rfl), accepted]
        exact lastRegion_succ N.regionSize_positive (by decide) _
      rw [heads] at cached
      apply CachesStaggered.of_sameHead
      case state => exact state
      case cached =>
        rw [heads]
        exact cached.occupy (by omega) (liveStarts_occupy accepted rfl)
          packsAfter rfl
      case owner => rw [at_]; rfl
      case cells => rfl
  | enterAtBoundary at_ _ | cachedBusy at_ _ | write at_
  | replaceJoined at_ _ | replaceOpening at_ _ =>
      apply CachesStaggered.of_sameHead
      case cached => exact cached.of_same rfl rfl
      case owner => rw [at_]; rfl
      case cells => rfl

/-- A step that ends ranges at most and leaves the owner alone. -/
theorem cached_of_fewer
    (invariant : NarrowInvariant N state)
    (fewer :
      ∀ region, region < 4 → after.loads N region ≤ state.loads N region)
    (occupancy : after.occupancy = state.occupancy)
    (owner : after.owner.isAdmitted = state.owner.isAdmitted)
    (cells : after.cells = state.cells) :
    CachesStaggered N (after.head N) after :=
  (invariant.cached.of_fewer fewer occupancy).of_sameHead owner cells

/-- Every step of the system keeps the cached word staggered. -/
theorem cached_move
    {action : Action Cell Waker}
    (small : N.size ≤ 512)
    (invariant : NarrowInvariant N state)
    (phase : PhaseInvariant N state)
    (packs : state.WordPacksLoads N)
    (checks : state.ChecksAtBoundary N)
    (moved : Move N state action after) :
    CachesStaggered N (after.head N) after := by
  cases moved with
  | owner moved =>
      exact invariant.cached_ownerMove small phase packs checks moved
  | setBounds found stage =>
      apply invariant.cached_of_fewer
      case fewer =>
        intro region _
        rw [State.loads, liveStarts_setBounds found stage]
      all_goals rfl
  | deoccupyRegion found stage =>
      have starts := liveStarts_deoccupyRegion (N := N) found stage
      apply invariant.cached_of_fewer
      case fewer =>
        intro region _
        rw [State.loads, State.loads, load_perm starts, load_cons]
        exact Nat.le_add_right _ _
      all_goals rfl
  | @steal i batchLimit handle found stage =>
      have frame := (Move.steal (N := N) found stage).frame rfl
      apply invariant.cached_of_fewer
      case fewer =>
        intro region _
        rw [State.loads, liveStarts_steal found stage]
      case occupancy =>
        unfold Queue.steal
        split <;> rfl
      case owner => rw [frame.1]
      case cells => exact frame.2.2
  | call at_ | finish at_ | register at_ =>
      apply CachesStaggered.of_sameHead
      case cached => exact invariant.cached.of_same rfl rfl
      case owner => rw [at_]; rfl
      case cells => rfl
  | retry found stage =>
      exact invariant.cached
  | touch =>
      exact (invariant.cached.of_same rfl rfl).of_sameHead rfl rfl

/-- Every step of the system keeps the invariant. -/
theorem move
    {action : Action Cell Waker}
    (small : N.size ≤ 512)
    (invariant : NarrowInvariant N state)
    (phase : PhaseInvariant N state)
    (packs : state.WordPacksLoads N)
    (checks : state.ChecksAtBoundary N)
    (moved : Move N state action after) :
    NarrowInvariant N after where
  window :=
    invariant.window.move phase
      (fun _ next => invariant.passedRightly phase packs checks next) moved
  cached := invariant.cached_move small phase packs checks moved

end NarrowInvariant

/-- The invariant holds in every run of a buffer of at most 512 cells. -/
theorem Reachable.narrowInvariant
    {buffer : Nat → Cell}
    {state : State Cell Waker}
    (small : N.size ≤ 512)
    (reachable : Reachable N buffer state) :
    NarrowInvariant N state := by
  induction reachable with
  | start =>
      exact .initial
  | next earlier _ taken inductionHypothesis =>
      exact inductionHypothesis.move small
        (Reachable.phaseInvariant earlier)
        (Reachable.wordPacksLoads earlier)
        (Reachable.checksAtBoundary earlier) (step_move taken)

/-! ## Overflow -/

/-- The accepted size after 512 is 1024. -/
theorem large_of_not_narrow
    (above : ¬ N.size ≤ 512) :
    1024 ≤ N.size := by
  have exponent : 10 ≤ N.log := by
    by_contra small
    have bound : 2 ^ N.log ≤ 2 ^ 9 :=
      Nat.pow_le_pow_right (by decide) (by omega)
    rw [← N.size_eq] at bound
    omega
  rw [N.size_eq]
  exact Nat.pow_le_pow_right (n := 2) (by decide) exponent

/-- Positions of one stretch have one region. -/
theorem regionAt_of_stretch
    {width : PointerWidth}
    (N : BufferSize width)
    {stretch position : Nat}
    (fromStart : regionSize width N.size * stretch ≤ position)
    (beforeStop :
      position <
        regionSize width N.size * stretch + regionSize width N.size) :
    regionAt N position = stretch % width.regionCount := by
  have quotient : position / regionSize width N.size = stretch := by
    apply Nat.div_eq_of_lt_le
    · rw [Nat.mul_comm]
      exact fromStart
    · rw [Nat.add_mul, Nat.one_mul, Nat.mul_comm]
      exact beforeStop
  rw [regionAt, CircularRegions.regionOf, quotient]

/-- Ranges that all begin in one region. -/
theorem load_of_region
    {width : PointerWidth}
    {N : BufferSize width}
    {starts : List Nat}
    {region : Nat}
    (inRegion : ∀ start ∈ starts, regionAt N start = region) :
    load width.regionCount (regionSize width N.size) starts =
      Function.update (fun _ => 0) region starts.length := by
  funext other
  by_cases here : other = region
  · subst here
    rw [Function.update_self, load, List.countP_eq_length]
    intro start member
    simpa using inRegion start member
  · rw [Function.update_of_ne here, load_eq_zero_iff]
    intro start member same
    exact here (same.symm.trans (inRegion start member))

/--
From 1024 cells on, 256 ranges of one task each can be live in the last
region, where they read zero.
-/
theorem exists_narrowFull
    (Waker : Type)
    (buffer : Nat → Cell)
    (large : 1024 ≤ N.size) :
    ∃ full : State Cell Waker,
      Reachable N buffer full ∧
        Quiet full ∧
        full.accepted = regionSize .w32 N.size * 3 + 256 ∧
        full.liveStarts =
          List.range' (regionSize .w32 N.size * 3) 256 ∧
        full.innerOccupancy = 2 ^ 20 := by
  have four := four_mul_regionSize N
  have wideRegion : 256 ≤ regionSize .w32 N.size := by omega
  have empty : Reachable N buffer (initial buffer : State Cell Waker) :=
    .start
  obtain ⟨atLast, atLastReachable, atLastQuiet, accepted, noneLive, word⟩ :=
    exists_passedRanges empty ⟨rfl, rfl⟩ (blind_zero .w32)
      (regionSize .w32 N.size * 3)
  have atBoundary : atLast.accepted = regionSize .w32 N.size * 3 := by
    rw [accepted]
    exact Nat.zero_add _
  obtain ⟨full, fullReachable, fullQuiet, fullAccepted, starts⟩ :=
    exists_keptRanges atLastReachable atLastQuiet
      (by rw [word]; exact blind_zero .w32) ⟨3, atBoundary⟩ wideRegion
  have none : atLast.liveStarts = [] := noneLive
  rw [none, List.nil_append] at starts
  rw [atBoundary] at fullAccepted starts
  refine ⟨full, fullReachable, fullQuiet, fullAccepted, starts, ?_⟩
  have inLast : ∀ start ∈ full.liveStarts, regionAt N start = 3 := by
    intro start member
    rw [starts, List.mem_range'_1] at member
    exact regionAt_of_stretch N member.1
      (Nat.lt_of_lt_of_le member.2 (Nat.add_le_add_left wideRegion _))
  have word := Reachable.wordPacksLoads fullReachable
  rw [State.WordPacksLoads, State.loads, load_of_region inLast, starts,
    List.length_range'] at word
  rw [word]
  decide

/-- No mask sees the 256 ranges of the last region. -/
theorem blind_full : Blind .w32 (2 ^ 20) := by
  unfold Blind
  decide

/-- From 1024 cells on, some run overwrites a live range. -/
theorem exists_narrowOverwrite
    (Waker : Type)
    (buffer : Nat → Cell)
    (large : 1024 ≤ N.size) :
    ∃ state : State Cell Waker,
      Reachable N buffer state ∧ ¬ state.WritesFreeCell N := by
  obtain ⟨full, fullReachable, fullQuiet, fullAccepted, starts, word⟩ :=
    exists_narrowFull Waker buffer large
  have blind : Blind .w32 full.innerOccupancy := by
    rw [word]
    exact blind_full
  -- once around the buffer, to the oldest of the live ranges
  obtain ⟨around, aroundReachable, aroundQuiet, aroundAccepted,
      aroundStarts, aroundWord⟩ :=
    exists_passedRanges fullReachable fullQuiet blind (N.size - 256)
  rw [← aroundWord] at blind
  obtain ⟨writing, writingReachable, at_, handles, cells⟩ :=
    exists_admitted aroundReachable aroundQuiet.idle blind.unobstructed id
  refine ⟨writing, writingReachable, fun free => ?_⟩
  have oldest : regionSize .w32 N.size * 3 ∈ writing.liveStarts := by
    rw [State.liveStarts_congr handles, aroundStarts, starts,
      List.mem_range'_1]
    omega
  obtain ⟨handle, member, first⟩ := List.mem_map.mp oldest
  obtain ⟨member, live⟩ := List.mem_filter.mp member
  have below := (free id _ at_ handle member live).1
  rw [State.accepted, cells, first] at below
  change around.accepted < _ at below
  omega

/--
On a 32-bit target every write of every run goes to a cell of no live range
exactly when the buffer has at most 512 cells.
-/
theorem narrow_writes_free_iff
    (Waker : Type)
    (N : BufferSize .w32)
    (buffer : Nat → Cell) :
    (∀ state : State Cell Waker,
        Reachable N buffer state → state.WritesFreeCell N) ↔
      N.size ≤ 512 := by
  constructor
  · intro always
    by_contra above
    obtain ⟨state, reachable, overwrites⟩ :=
      exists_narrowOverwrite Waker buffer (large_of_not_narrow above)
    exact overwrites (always state reachable)
  · intro small state reachable
    exact
      (Reachable.narrowInvariant small reachable).window.writesFreeCell
        (Reachable.phaseInvariant reachable)

end StackQueue.Queue
