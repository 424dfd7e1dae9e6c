import StackQueue.QueueRegions

namespace StackQueue.Queue

/-!
# Episodes of a run

Between calls of the owner, a whole call and the fate of the range it opens
make one episode of a run: `exists_keptRange` opens and bounds a range of one
task, `exists_passedRange` also releases it.  Runs of any length are assembled
from episodes, for either pointer width.
-/

variable {width : PointerWidth} {N : BufferSize width} {Cell Waker : Type}

/-- Between calls of the owner, with no range to join. -/
structure Quiet (state : State Cell Waker) : Prop where
  idle : state.owner = .idle
  noUnbounded : state.hasUnbounded = false

/-- The shared word does not stop a call at the next position. -/
def Unobstructed
    (N : BufferSize width)
    (state : State Cell Waker) :
    Prop :=
  regionSize width N.size ∣ state.accepted →
    state.innerOccupancy &&&
        regionMask width N.size (state.accepted % N.size) =
      0

section Episodes

variable
    {buffer : Nat → Cell}
    {before : State Cell Waker}

/-- An unobstructed call reaches its write. -/
theorem exists_admitted
    (reachable : Reachable N buffer before)
    (idle : before.owner = .idle)
    (unobstructed : Unobstructed N before)
    (write : Cell → Cell) :
    ∃ after : State Cell Waker,
      Reachable N buffer after ∧
        after.owner = .writing write (before.accepted % N.size) ∧
        after.handles = before.handles ∧
        after.cells = before.cells := by
  have entered :
      Reachable N buffer { before with owner := .entered write } :=
    reachable.move (.call idle)
  have index :
      before.currentWriteIndex N = before.accepted % N.size :=
    (Reachable.phaseInvariant entered).currentWriteIndex rfl
  by_cases boundary :
    before.currentWriteIndex N &&& (regionSize width N.size - 1) = 0
  · have free :
        before.innerOccupancy &&&
            regionMask width N.size (before.currentWriteIndex N) =
          0 := by
      rw [index] at boundary ⊢
      exact unobstructed ((N.and_regionSize_eq_zero_iff _).mp boundary)
    have checking :=
      entered.move (.owner (.enterAtBoundary rfl boundary))
    by_cases cached :
      before.occupancy &&&
          regionMask width N.size (before.currentWriteIndex N) =
        0
    · refine ⟨_, checking.move (.owner (.cachedFree rfl cached)),
        ?_, rfl, rfl⟩
      rw [← index]
      rfl
    · have loading :=
        checking.move (.owner (.cachedBusy rfl cached))
      refine ⟨_, loading.move (.owner (.loadedFree rfl free)),
        ?_, rfl, rfl⟩
      rw [← index]
      rfl
  · refine ⟨_, entered.move (.owner (.enterInside rfl boundary)),
      ?_, rfl, rfl⟩
    rw [← index]
    rfl

/-- From its write on, a call with no range to join opens one. -/
theorem exists_opened
    {write : Cell → Cell}
    {index : Nat}
    (reachable : Reachable N buffer before)
    (noUnbounded : before.hasUnbounded = false)
    (at_ : before.owner = .writing write index) :
    ∃ (after : State Cell Waker) (baseSlot : Nat),
      Reachable N buffer after ∧
        after.owner = .idle ∧
        after.handles =
          before.handles ++ [⟨baseSlot, .unbounded, before.accepted, 0⟩] ∧
        after.accepted = before.accepted + 1 ∧
        after.occupancy = after.innerOccupancy := by
  have adding := reachable.move (.owner (.write at_))
  have replacing := adding.move (.owner (.add rfl))
  have differ :
      (before.innerSlot ^^^ before.slot) &&& phaseFlag ≠ 0 := by
    obtain ⟨_, basePhase, phase, _, _, base, slot, atAdd, _⟩ :=
      (Reachable.phaseInvariant replacing).owner
    change before.innerSlot = _ at base
    change before.slot = _ at slot
    rw [Ne, base, slot, xor_and_phaseFlag_eq_zero_iff]
    intro same
    have existed : before.hasUnbounded = true := atAdd.mpr same
    rw [noUnbounded] at existed
    cases existed
  have occupying := replacing.move (.owner (.replaceOpening rfl differ))
  have opened := occupying.move (.owner (.occupy rfl))
  have finished := opened.move (.finish rfl)
  have accepted :
      (before.cells ++ [index]).length = before.accepted + 1 :=
    List.length_append
  refine ⟨_, before.innerSlot, finished, rfl, ?_, accepted, rfl⟩
  change
    before.handles ++
        [⟨before.innerSlot, .unbounded,
          (before.cells ++ [index]).length - 1, 0⟩] =
      _
  rw [accepted, Nat.add_sub_cancel]

/-- Open a range of one task and bound it. -/
theorem exists_boundedRange
    (reachable : Reachable N buffer before)
    (quiet : Quiet before)
    (unobstructed : Unobstructed N before) :
    ∃ (after : State Cell Waker) (handle : Handle) (range : CounterRange),
      Reachable N buffer after ∧
        after.owner = .idle ∧
        after.handles = before.handles ++ [handle] ∧
        handle.stage = .bounded range ∧
        handle.first = before.accepted ∧
        after.accepted = before.accepted + 1 ∧
        after.occupancy = after.innerOccupancy := by
  obtain ⟨writing, writingReachable, at_, sameHandles, sameCells⟩ :=
    exists_admitted reachable quiet.idle unobstructed id
  have noUnbounded : writing.hasUnbounded = false := by
    rw [State.hasUnbounded, sameHandles]
    exact quiet.noUnbounded
  have sameAccepted : writing.accepted = before.accepted := by
    rw [State.accepted, sameCells, State.accepted]
  obtain ⟨opened, baseSlot, openedReachable, idle, handles, accepted,
      copied⟩ :=
    exists_opened writingReachable noUnbounded at_
  rw [sameHandles, sameAccepted] at handles
  rw [sameAccepted] at accepted
  have found :
      opened.handles[before.handles.length]? =
        some ⟨baseSlot, .unbounded, before.accepted, 0⟩ := by
    rw [handles, List.getElem?_concat_length]
  let range : CounterRange :=
    ⟨baseSlot >>> width.indexShift,
      opened.innerSlot >>> width.indexShift⟩
  refine ⟨_, ⟨baseSlot, .bounded range, before.accepted, opened.accepted⟩,
    range, openedReachable.move (.setBounds found rfl), idle, ?_, rfl, rfl,
    accepted, copied⟩
  change opened.handles.set _ _ = _
  rw [handles, List.set_append_right _ _ (Nat.le_refl _), Nat.sub_self,
    List.set_cons_zero]

theorem Quiet.of_concat
    {after : State Cell Waker}
    {handle : Handle}
    (quiet : Quiet before)
    (idle : after.owner = .idle)
    (handles : after.handles = before.handles ++ [handle])
    (bounded : handle.isUnbounded = false) :
    Quiet after where
  idle := idle
  noUnbounded := by
    have noUnbounded := quiet.noUnbounded
    rw [State.hasUnbounded] at noUnbounded ⊢
    rw [handles, List.any_append, noUnbounded, List.any_cons, bounded]
    rfl

/-- Open and bound a range of one task that stays live. -/
theorem exists_keptRange
    (reachable : Reachable N buffer before)
    (quiet : Quiet before)
    (unobstructed : Unobstructed N before) :
    ∃ after : State Cell Waker,
      Reachable N buffer after ∧
        Quiet after ∧
        after.accepted = before.accepted + 1 ∧
        after.liveStarts = before.liveStarts ++ [before.accepted] ∧
        after.occupancy = after.innerOccupancy := by
  obtain ⟨after, handle, range, afterReachable, idle, handles, stage,
      first, accepted, copied⟩ :=
    exists_boundedRange reachable quiet unobstructed
  have bounded : handle.isUnbounded = false := by
    simp [Handle.isUnbounded, stage]
  have live : handle.isLive = true := by
    simp [Handle.isLive, stage]
  refine ⟨after, afterReachable, quiet.of_concat idle handles bounded,
    accepted, ?_, copied⟩
  rw [State.liveStarts, handles, List.filter_append, List.map_append,
    List.filter_singleton, live, ← first]
  rfl

/-- Open, bound and release a range of one task. -/
theorem exists_passedRange
    (reachable : Reachable N buffer before)
    (quiet : Quiet before)
    (unobstructed : Unobstructed N before) :
    ∃ after : State Cell Waker,
      Reachable N buffer after ∧
        Quiet after ∧
        after.accepted = before.accepted + 1 ∧
        after.liveStarts = before.liveStarts := by
  obtain ⟨bounded, handle, range, boundedReachable, idle, handles, stage,
      first, accepted, _⟩ :=
    exists_boundedRange reachable quiet unobstructed
  have found :
      bounded.handles[before.handles.length]? = some handle := by
    rw [handles, List.getElem?_concat_length]
  have releasedReachable :=
    boundedReachable.move (.deoccupyRegion found stage)
  let after :=
    deoccupyRegion N bounded before.handles.length handle range
  obtain ⟨released, replaced, notLive, notUnbounded⟩ :=
    deoccupyRegion_handles N bounded before.handles.length handle range
  have afterHandles : after.handles = before.handles ++ [released] := by
    rw [replaced, handles, List.set_append_right _ _ (Nat.le_refl _),
      Nat.sub_self, List.set_cons_zero]
  refine ⟨after, releasedReachable,
    quiet.of_concat idle afterHandles notUnbounded, accepted, ?_⟩
  rw [State.liveStarts, afterHandles, List.filter_append,
    List.map_append, List.filter_singleton, notLive]
  exact List.append_nil _

end Episodes

/-! ## Many episodes -/

section Runs

variable
    {buffer : Nat → Cell}
    {before : State Cell Waker}

/-- No mask sees any bit of the word. -/
def Blind (width : PointerWidth) (word : Nat) : Prop :=
  ∀ region,
    region < width.regionCount →
    PackedCounters.read (RegionWord.stride width) 8 region word = 0

theorem Blind.unobstructed
    {state : State Cell Waker}
    (blind : Blind width state.innerOccupancy) :
    Unobstructed N state := by
  intro _
  rw [and_regionMask_eq_zero_iff]
  exact blind _ (regionAt_lt N state.accepted)

theorem blind_zero (width : PointerWidth) : Blind width 0 := by
  intro region _
  rw [PackedCounters.read, Nat.zero_div, Nat.zero_mod]

/-- While no mask sees the word, any number of ranges come and go. -/
theorem exists_passedRanges
    (reachable : Reachable N buffer before)
    (quiet : Quiet before)
    (blind : Blind width before.innerOccupancy)
    (count : Nat) :
    ∃ after : State Cell Waker,
      Reachable N buffer after ∧
        Quiet after ∧
        after.accepted = before.accepted + count ∧
        after.liveStarts = before.liveStarts ∧
        after.innerOccupancy = before.innerOccupancy := by
  have word := Reachable.wordPacksLoads reachable
  induction count with
  | zero =>
      exact ⟨before, reachable, quiet, rfl, rfl, rfl⟩
  | succ count inductionHypothesis =>
      obtain ⟨middle, middleReachable, middleQuiet, accepted, starts,
          sameWord⟩ :=
        inductionHypothesis
      rw [← sameWord] at blind
      obtain ⟨after, afterReachable, afterQuiet, next, same⟩ :=
        exists_passedRange middleReachable middleQuiet blind.unobstructed
      have afterWord := Reachable.wordPacksLoads afterReachable
      refine ⟨after, afterReachable, afterQuiet, ?_, same.trans starts, ?_⟩
      · rw [next, accepted, Nat.add_assoc]
      · rw [afterWord, State.loads, same.trans starts]
        exact word.symm

/-- Within one region, ranges of one task each can stay live side by side. -/
theorem exists_keptRanges
    (reachable : Reachable N buffer before)
    (quiet : Quiet before)
    (blind : Blind width before.innerOccupancy)
    (boundary : regionSize width N.size ∣ before.accepted)
    {count : Nat}
    (inRegion : count ≤ regionSize width N.size) :
    ∃ after : State Cell Waker,
      Reachable N buffer after ∧
        Quiet after ∧
        after.accepted = before.accepted + count ∧
        after.liveStarts =
          before.liveStarts ++ List.range' before.accepted count := by
  induction count with
  | zero =>
      exact ⟨before, reachable, quiet, rfl, (List.append_nil _).symm⟩
  | succ count inductionHypothesis =>
      obtain ⟨middle, middleReachable, middleQuiet, accepted, starts⟩ :=
        inductionHypothesis (Nat.le_of_succ_le inRegion)
      have unobstructed : Unobstructed N middle := by
        intro atBoundary
        rw [accepted, ← Nat.dvd_add_iff_right boundary] at atBoundary
        have none : count = 0 :=
          Nat.eq_zero_of_dvd_of_lt atBoundary inRegion
        rw [none, List.range'_zero, List.append_nil] at starts
        have sameWord :
            middle.innerOccupancy = before.innerOccupancy := by
          rw [Reachable.wordPacksLoads middleReachable, State.loads, starts]
          exact (Reachable.wordPacksLoads reachable).symm
        rw [sameWord, and_regionMask_eq_zero_iff]
        exact blind _ (regionAt_lt N middle.accepted)
      obtain ⟨after, afterReachable, afterQuiet, next, added, _⟩ :=
        exists_keptRange middleReachable middleQuiet unobstructed
      refine ⟨after, afterReachable, afterQuiet, ?_, ?_⟩
      · rw [next, accepted, Nat.add_assoc]
      · rw [added, starts, accepted, List.range'_1_concat,
          List.append_assoc]

end Runs

end StackQueue.Queue
