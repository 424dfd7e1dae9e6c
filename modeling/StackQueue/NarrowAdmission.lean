import StackQueue.NarrowOccupancy

namespace StackQueue.Queue

open CircularRegions PackedCounters
open RegionWord (smallestBuffer32)

/-!
# Admission on a 32-bit target

The masks of a 32-bit target see more than their own region, so a boundary
check may refuse a region that is free.  With at most 512 cells it does so
exactly for the counts of its two neighbours that `Obstructed` names.
-/

variable {N : BufferSize .w32} {Cell Waker : Type}

/--
The counts for which a check of a region reads something else than zero: its
own, the low half of the next one's, and what the last one's overflows into.
-/
def Obstructed (count : Nat → Nat) (region : Nat) : Prop :=
  0 < count region ∨
    (region < 3 ∧ ¬ 16 ∣ count (region + 1)) ∨
    (0 < region ∧ 16 ≤ count (region - 1))

/-- What a check of the next region reads. -/
theorem Staggered.read_next_ne_zero_iff
    {head : Nat}
    {count : Nat → Nat}
    (staggered : Staggered head count)
    (inWord : head < 4) :
    PackedCounters.read 4 8 ((head + 1) % 4) (pack 4 4 count) ≠ 0 ↔
      Obstructed count ((head + 1) % 4) := by
  have first := staggered.bounded 0 (by decide)
  have second := staggered.bounded 1 (by decide)
  have third := staggered.bounded 2 (by decide)
  have fourth := staggered.bounded 3 (by decide)
  have small := staggered.small
  rw [PackedCounters.read, Staggered.pack_eq, Obstructed]
  have heads : head = 0 ∨ head = 1 ∨ head = 2 ∨ head = 3 := by omega
  rcases heads with here | here | here | here
  · subst here
    have next : count 1 = 0 := staggered.next (by decide)
    have two := small 2 (by decide) (by decide)
    change _ / 16 % 256 ≠ 0 ↔
      0 < count 1 ∨ (1 < 3 ∧ ¬ 16 ∣ count 2) ∨ (0 < 1 ∧ 16 ≤ count 0)
    omega
  · subst here
    have next : count 2 = 0 := staggered.next (by decide)
    have one := small 0 (by decide) (by decide)
    change _ / 256 % 256 ≠ 0 ↔
      0 < count 2 ∨ (2 < 3 ∧ ¬ 16 ∣ count 3) ∨ (0 < 2 ∧ 16 ≤ count 1)
    omega
  · subst here
    have one := small 0 (by decide) (by decide)
    have two := small 1 (by decide) (by decide)
    change _ / 4096 % 256 ≠ 0 ↔
      0 < count 3 ∨ (3 < 3 ∧ ¬ 16 ∣ count 4) ∨ (0 < 3 ∧ 16 ≤ count 2)
    omega
  · subst here
    have one := small 0 (by decide) (by decide)
    have two := small 1 (by decide) (by decide)
    change _ / 1 % 256 ≠ 0 ↔
      0 < count 0 ∨ (0 < 3 ∧ ¬ 16 ∣ count 1) ∨ (0 < 0 ∧ 16 ≤ count 0)
    omega

/-- What the shared word shows of the region that is entered. -/
theorem NarrowInvariant.busy_iff
    {state : State Cell Waker}
    (invariant : NarrowInvariant N state)
    (packs : state.WordPacksLoads N)
    (notAdmitted : state.owner.isAdmitted = false)
    (boundary : regionSize .w32 N.size ∣ state.accepted) :
    state.innerOccupancy &&&
          regionMask .w32 N.size (state.accepted % N.size) ≠
        0 ↔
      Obstructed (state.loads N) (regionAt N state.accepted) := by
  have next : (state.head N + 1) % 4 = regionAt N state.accepted := by
    rw [State.head_of_notAdmitted notAdmitted]
    exact
      (regionOf_boundary N.regionSize_positive (by decide) boundary).symm
  have shown :=
    invariant.cached.loads.read_next_ne_zero_iff (State.head_lt N state)
  rw [next] at shown
  rw [← shown, Ne, and_regionMask_eq_zero_iff,
    invariant.cached.innerOccupancy packs]
  rfl

/-- What the owner's next access says about the admission of its task. -/
structure NarrowVerdict
    (N : BufferSize .w32)
    (state after : State Cell Waker) : Prop where
  /-- Off a boundary a task is admitted. -/
  inside :
    ∀ write,
      state.owner = .entered write →
      ¬ regionSize .w32 N.size ∣ state.accepted →
      ∃ index, after.owner = .writing write index
  /-- Only at a boundary is the occupancy looked at. -/
  boundary :
    ∀ write index,
      state.owner = .checking write index ∨
        state.owner = .loading write index →
      regionSize .w32 N.size ∣ state.accepted
  /-- A check that the cached word passes finds a region that is free. -/
  cached :
    ∀ write index,
      state.owner = .checking write index →
      after.owner = .writing write index →
      state.loads N (regionAt N state.accepted) = 0
  /-- The loaded word refuses exactly the regions that are obstructed. -/
  loaded :
    ∀ write index,
      state.owner = .loading write index →
      (after.owner = .returning .queueFull ∧
          Obstructed (state.loads N) (regionAt N state.accepted)) ∨
        (after.owner = .writing write index ∧
          ¬ Obstructed (state.loads N) (regionAt N state.accepted))

/--
On a 32-bit target with at most 512 cells, a task is refused exactly at a
boundary whose region is obstructed when the occupancy is loaded.
-/
theorem narrow_admission_exact
    (N : BufferSize .w32)
    (small : N.size ≤ 512)
    (buffer : Nat → Cell)
    (state after : State Cell Waker)
    (reachable : Reachable N buffer state)
    (taken : ownerStep N state = some after) :
    NarrowVerdict N state after := by
  have moved := ownerStep_move taken
  have phase := Reachable.phaseInvariant reachable
  have packs := Reachable.wordPacksLoads reachable
  have checks := Reachable.checksAtBoundary reachable
  have invariant := Reachable.narrowInvariant small reachable
  constructor
  case boundary => exact checks
  case inside =>
    intro write at_ inside
    cases moved with
    | enterAtBoundary _ boundary =>
        rw [phase.currentWriteIndex at_, N.and_regionSize_eq_zero_iff]
          at boundary
        exact (inside boundary).elim
    | enterInside here _ =>
        rw [at_] at here
        cases here
        exact ⟨_, rfl⟩
    | cachedFree here _ | cachedBusy here _ | loadedFree here _
    | loadedBusy here _ | write here | add here | replaceJoined here _
    | replaceOpening here _ | occupy here =>
        rw [at_] at here
        cases here
  case cached =>
    intro write index at_ passed
    exact
      invariant.passedRightly phase packs checks moved write index
        (.inl at_) passed
  case loaded =>
    intro write index at_
    have shown :=
      invariant.busy_iff packs (by rw [at_]; rfl)
        (checks write index (.inr at_))
    rw [← phase.checkedIndex (.inr at_)] at shown
    simp only [ownerStep, at_] at taken
    split at taken
    · rename_i free
      cases taken
      exact .inr ⟨rfl, fun busy => shown.mpr busy free⟩
    · rename_i busy
      cases taken
      exact .inl ⟨rfl, shown.mp busy⟩

/-- A task that gets a range of its own, bounded at once. -/
def ownRangeRun (range : Nat) : List (Action Unit Nat) :=
  [.call id, .owner, .owner, .owner, .owner, .owner] ++
    (if range = 0 then [.owner] else []) ++
    [.finish none, .setBounds range]

/-- Sixteen ranges fill the first region; the next task enters the second. -/
def obstructedRun : List (Action Unit Nat) :=
  ((List.range 16).map ownRangeRun).flatten ++ [.call id, .owner, .owner]

/-- There the second region is refused although no range began in it. -/
theorem narrow_admission_exact_obstructed :
    ∃ state after : State Unit Nat,
      Reachable smallestBuffer32 (fun _ => ()) state ∧
        (List.range 2).map (state.loads smallestBuffer32) = [16, 0] ∧
        after.owner = .returning .queueFull ∧
        NarrowVerdict smallestBuffer32 state after := by
  have performed :
      ((TransitionSystem.execute (step smallestBuffer32)
          (initial fun _ => ()) obstructedRun).map
        fun state : State Unit Nat =>
          ((List.range 2).map (state.loads smallestBuffer32),
            ((ownerStep smallestBuffer32 state).bind fun after =>
              step smallestBuffer32 after (.finish (some 0))).isSome)) =
        some ([16, 0], true) := by
    decide +kernel
  obtain ⟨state, reached, shape⟩ := Option.map_eq_some_iff.mp performed
  simp only [Prod.mk.injEq, Option.isSome_iff_exists] at shape
  obtain ⟨loads, registered, finished⟩ := shape
  obtain ⟨after, taken, finished⟩ := Option.bind_eq_some_iff.mp finished
  have reachable : Reachable smallestBuffer32 (fun _ => ()) state :=
    TransitionSystem.Reachable.start.execute reached
  have small : smallestBuffer32.size ≤ 512 := by decide
  have refused : after.owner = .returning .queueFull := by
    have moved := step_move finished
    cases moved with
    | register at_ => exact at_
  exact ⟨state, after, reachable, loads, refused,
    narrow_admission_exact smallestBuffer32 small (fun _ => ()) state after
      reachable taken⟩

end StackQueue.Queue
