import StackQueue.ListUpdate
import StackQueue.Queue

namespace StackQueue.Queue

open IntervalChain ListUpdate

/-!
# The phase protocol

The owner opens a new range exactly when the phase bit it fetched differs from
the one it kept from its previous call, and bounding a range flips that bit.
`PhaseInvariant` relates the two slot words, the owner's program point and the
handles in every reachable state; it holds for every buffer size and pointer
width, and does not depend on what the occupancy check answers.

The ranges of the handles form a chain from position zero.  While the owner is
between the `fetch_add` that opens a range and the creation of its handle, the
chain ends one position short of the accepted tasks.
-/

variable {width : PointerWidth} {Cell Waker : Type}

namespace State

/-- How far the handles' ranges extend. -/
def covered (state : State Cell Waker) : Nat :=
  match state.owner with
  | .replacing _ baseSlot =>
      if phaseOf baseSlot = phaseOf state.slot then
        state.accepted
      else
        state.accepted - 1
  | .occupying _ _ => state.accepted - 1
  | _ => state.accepted

/-- The intervals of positions that the handles stand for. -/
def spans (state : State Cell Waker) : List Interval :=
  state.handles.map (Handle.span state.covered)

end State

/--
What the owner's program point says about its slot, the shared phase and the
existence of an unbounded handle.
-/
def PhaseAt
    (N : BufferSize width)
    (slot : Nat)
    (innerPhase : Bool)
    (accepted : Nat)
    (unbounded unboundedAtAdd : Bool)
    (handles : Nat) :
    Owner Cell → Prop
  | .idle | .entered _ =>
      ∃ phase,
        slot = encodeSlot width accepted phase ∧
          (unbounded = true ↔ innerPhase = phase)
  | .checking _ index | .loading _ index | .writing _ index
  | .adding index =>
      index = accepted % N.size ∧
        ∃ phase,
          slot = encodeSlot width accepted phase ∧
            (unbounded = true ↔ innerPhase = phase)
  | .replacing index baseSlot =>
      ∃ position basePhase phase,
        accepted = position + 1 ∧
          index = position % N.size ∧
          baseSlot = encodeSlot width position basePhase ∧
          slot = encodeSlot width position phase ∧
          (unboundedAtAdd = true ↔ basePhase = phase) ∧
          (basePhase = phase →
            (unbounded = true ↔ innerPhase = phase)) ∧
          (basePhase ≠ phase →
            innerPhase = basePhase ∧ unbounded = false)
  | .occupying index baseSlot =>
      ∃ position phase,
        accepted = position + 1 ∧
          index = position % N.size ∧
          baseSlot = encodeSlot width position phase ∧
          slot = encodeSlot width accepted phase ∧
          innerPhase = phase ∧
          unbounded = false ∧
          unboundedAtAdd = false
  | .returning admission =>
      (∃ phase,
        slot = encodeSlot width accepted phase ∧
          (unbounded = true ↔ innerPhase = phase)) ∧
        (admission = .joined → unboundedAtAdd = true) ∧
        ∀ handle,
          admission = .opened handle →
          unboundedAtAdd = false ∧ handle < handles

/-- The invariant of the phase protocol. -/
structure PhaseInvariant
    (N : BufferSize width)
    (state : State Cell Waker) : Prop where
  cells :
    ∀ (k index : Nat),
      state.cells[k]? = some index → index = k % N.size
  innerSlot :
    state.innerSlot =
      encodeSlot width state.accepted (phaseOf state.innerSlot)
  owner :
    PhaseAt N state.slot (phaseOf state.innerSlot) state.accepted
      state.hasUnbounded state.unboundedAtAdd state.handles.length
      state.owner
  chain :
    Chain 0 state.spans state.covered
  onlyLast :
    ∀ (i : Nat) (handle : Handle),
      state.handles[i]? = some handle →
      handle.isUnbounded = true →
      i + 1 = state.handles.length
  baseSlots :
    ∀ handle ∈ state.handles,
      handle.baseSlot >>> width.indexShift =
        handle.first % 2 ^ width.indexShift
  counters :
    ∀ handle ∈ state.handles,
      ∀ range,
        handle.stage = .bounded range →
        range =
          ⟨handle.first % 2 ^ width.indexShift,
            handle.last % 2 ^ width.indexShift⟩

/-! ## Lists of handles -/

/-- A bounded range extends from its first position to its last. -/
theorem Handle.span_of_bounded
    {covered : Nat}
    {handle : Handle}
    (bounded : handle.isUnbounded = false) :
    handle.span covered = ⟨handle.first, handle.last⟩ := by
  simp [Handle.span, bounded]

/-- Bounded ranges do not depend on how far the accepted tasks extend. -/
theorem map_span_of_no_unbounded
    {handles : List Handle}
    (none_ : handles.any Handle.isUnbounded = false)
    (first second : Nat) :
    handles.map (Handle.span first) =
      handles.map (Handle.span second) := by
  refine List.map_congr_left fun handle member => ?_
  have bounded : handle.isUnbounded = false := by
    simpa using List.any_eq_false.mp none_ handle member
  rw [Handle.span_of_bounded bounded, Handle.span_of_bounded bounded]

/-- A handle list whose unbounded handle, if any, is its last one. -/
theorem exists_concat_of_unbounded
    {handles : List Handle}
    (onlyLast :
      ∀ (i : Nat) (handle : Handle),
        handles[i]? = some handle →
        handle.isUnbounded = true →
        i + 1 = handles.length)
    (some_ : handles.any Handle.isUnbounded = true) :
    ∃ earlier last,
      handles = earlier ++ [last] ∧
        last.isUnbounded = true ∧
        earlier.any Handle.isUnbounded = false := by
  obtain ⟨handle, member, unbounded⟩ := List.any_eq_true.mp some_
  obtain ⟨i, atHandle⟩ := List.getElem?_of_mem member
  have atEnd := onlyLast i handle atHandle unbounded
  rcases List.eq_nil_or_concat handles with empty | ⟨earlier, last, shape⟩
  · simp [empty] at atEnd
  · subst shape
    refine ⟨earlier, last, List.concat_eq_append, ?_, ?_⟩
    · simp only [List.concat_eq_append, List.length_append,
        List.length_cons, List.length_nil, Nat.zero_add,
        Nat.add_right_cancel_iff] at atEnd atHandle
      subst atEnd
      simp only [Nat.le_refl, List.getElem?_append_right, Nat.sub_self,
        List.getElem?_cons_zero, Option.some.injEq] at atHandle
      rw [atHandle]
      exact unbounded
    · rw [List.any_eq_false]
      intro other otherMember otherUnbounded
      obtain ⟨j, atOther⟩ := List.getElem?_of_mem otherMember
      obtain ⟨inBounds, _⟩ := List.getElem?_eq_some_iff.mp atOther
      have last := onlyLast j other
        (by simp [List.getElem?_append_left inBounds, atOther])
        otherUnbounded
      simp at last
      omega

/-- Once the range is bounded, no handle is unbounded. -/
theorem any_unbounded_set
    {handles : List Handle}
    (onlyLast :
      ∀ (i : Nat) (handle : Handle),
        handles[i]? = some handle →
        handle.isUnbounded = true →
        i + 1 = handles.length)
    {i : Nat}
    {old new : Handle}
    (found : handles[i]? = some old)
    (wasUnbounded : old.isUnbounded = true)
    (bounded : new.isUnbounded = false) :
    (handles.set i new).any Handle.isUnbounded = false := by
  rw [List.any_eq_false]
  intro other member unbounded
  obtain ⟨j, atOther⟩ := List.getElem?_of_mem member
  rcases getElem?_set_cases atOther with ⟨_, isNew⟩ | ⟨elsewhere, before⟩
  · rw [isNew, bounded] at unbounded
    cases unbounded
  · have := onlyLast i old found wasUnbounded
    have := onlyLast j other before unbounded
    omega

/-- An unbounded last range extends with the accepted tasks. -/
theorem chain_extend
    {handles : List Handle}
    {covered : Nat}
    (onlyLast :
      ∀ (i : Nat) (handle : Handle),
        handles[i]? = some handle →
        handle.isUnbounded = true →
        i + 1 = handles.length)
    (some_ : handles.any Handle.isUnbounded = true)
    (chain : Chain 0 (handles.map (Handle.span covered)) covered) :
    Chain 0 (handles.map (Handle.span (covered + 1))) (covered + 1) := by
  obtain ⟨earlier, last, shape, unbounded, bounded⟩ :=
    exists_concat_of_unbounded onlyLast some_
  subst shape
  rw [List.map_append, List.map_singleton, chain_concat] at chain ⊢
  rw [map_span_of_no_unbounded bounded (covered + 1) covered]
  simp only [Handle.span, unbounded, if_true] at chain ⊢
  obtain ⟨leads, nonempty, _⟩ := chain
  exact ⟨leads, by omega, trivial⟩

/-- Flipping the shared phase and losing the unbounded handle go together. -/
theorem PhaseAt.bound
    {N : BufferSize width}
    {slot accepted handles : Nat}
    {innerPhase unboundedAtAdd : Bool}
    {owner : Owner Cell}
    (before :
      PhaseAt N slot innerPhase accepted true unboundedAtAdd handles
        owner) :
    PhaseAt N slot (!innerPhase) accepted false unboundedAtAdd handles
      owner := by
  have flip {phase : Bool} (parity : true = true ↔ innerPhase = phase) :
      false = true ↔ (!innerPhase) = phase := by
    have same := parity.mp rfl
    subst same
    cases innerPhase <;> decide
  cases owner with
  | idle | entered =>
      obtain ⟨phase, slotShape, parity⟩ := before
      exact ⟨phase, slotShape, flip parity⟩
  | checking | loading | writing | adding =>
      obtain ⟨indexShape, phase, slotShape, parity⟩ := before
      exact ⟨indexShape, phase, slotShape, flip parity⟩
  | replacing =>
      obtain ⟨position, basePhase, phase, acceptedShape, indexShape, base,
        slotShape, atAdd, parity, opens⟩ := before
      have joins : basePhase = phase := by
        by_contra differ
        exact absurd (opens differ).2 (by decide)
      exact ⟨position, basePhase, phase, acceptedShape, indexShape, base,
        slotShape, atAdd, fun same => flip (parity same),
        fun differ => (differ joins).elim⟩
  | occupying =>
      obtain ⟨_, _, _, _, _, _, _, isFalse, _⟩ := before
      cases isFalse
  | returning =>
      obtain ⟨⟨phase, slotShape, parity⟩, joined, opened⟩ := before
      exact ⟨⟨phase, slotShape, flip parity⟩, joined, opened⟩

/-! ## Preservation -/

namespace PhaseInvariant

variable
    {N : BufferSize width}
    {state after : State Cell Waker}

/-- A step that keeps handles, cells and the shared slot keeps the ranges. -/
theorem of_same_ranges
    (invariant : PhaseInvariant N state)
    (handles : after.handles = state.handles)
    (cells : after.cells = state.cells)
    (innerSlot : after.innerSlot = state.innerSlot)
    (covered : after.covered = state.covered)
    (owner :
      PhaseAt N after.slot (phaseOf after.innerSlot) after.accepted
        after.hasUnbounded after.unboundedAtAdd after.handles.length
        after.owner) :
    PhaseInvariant N after where
  cells := by
    rw [cells]
    exact invariant.cells
  innerSlot := by
    rw [State.accepted, cells, innerSlot]
    exact invariant.innerSlot
  owner := owner
  chain := by
    rw [State.spans, handles, covered]
    exact invariant.chain
  onlyLast := by
    rw [handles]
    exact invariant.onlyLast
  baseSlots := by
    rw [handles]
    exact invariant.baseSlots
  counters := by
    rw [handles]
    exact invariant.counters

/-- Taking a bounded range further towards release keeps the ranges. -/
theorem of_release
    (invariant : PhaseInvariant N state)
    {i : Nat}
    {old : Handle}
    {stage : Stage}
    (found : state.handles[i]? = some old)
    (wasBounded : old.isUnbounded = false)
    (notUnbounded : stage ≠ .unbounded)
    (noRange : ∀ range, stage ≠ .bounded range)
    (handles :
      after.handles = state.handles.set i { old with stage := stage })
    (slot : after.slot = state.slot)
    (innerSlot : after.innerSlot = state.innerSlot)
    (cells : after.cells = state.cells)
    (unboundedAtAdd : after.unboundedAtAdd = state.unboundedAtAdd)
    (owner : after.owner = state.owner) :
    PhaseInvariant N after := by
  have bounded :
      Handle.isUnbounded { old with stage := stage } = false := by
    simp [Handle.isUnbounded, notUnbounded]
  have spanSame (covered : Nat) :
      Handle.span covered { old with stage := stage } =
        old.span covered := by
    simp [Handle.span, wasBounded, bounded]
  have accepted : after.accepted = state.accepted := by
    rw [State.accepted, cells, State.accepted]
  have covered : after.covered = state.covered := by
    simp only [State.covered, owner, slot, accepted]
  have unbounded : after.hasUnbounded = state.hasUnbounded := by
    rw [State.hasUnbounded, handles,
      any_set_of_same found (bounded.trans wasBounded.symm)]
    rfl
  have lookup :
      ∀ (j : Nat) (handle : Handle),
        after.handles[j]? = some handle →
        ∃ earlier,
          state.handles[j]? = some earlier ∧
            handle.isUnbounded = earlier.isUnbounded ∧
            handle.baseSlot = earlier.baseSlot ∧
            handle.first = earlier.first ∧
            handle.last = earlier.last ∧
            ∀ range,
              handle.stage = .bounded range →
              earlier.stage = .bounded range := by
    intro j handle atHandle
    rw [handles] at atHandle
    rcases getElem?_set_cases atHandle with ⟨here, isNew⟩ | ⟨_, before⟩
    · subst here isNew
      exact ⟨old, found, by rw [bounded, wasBounded], rfl, rfl, rfl,
        fun range shape => (noRange range shape).elim⟩
    · exact ⟨handle, before, rfl, rfl, rfl, rfl, fun _ shape => shape⟩
  refine {
    cells := ?_
    innerSlot := ?_
    owner := ?_
    chain := ?_
    onlyLast := ?_
    baseSlots := ?_
    counters := ?_
  }
  · rw [cells]
    exact invariant.cells
  · rw [accepted, innerSlot]
    exact invariant.innerSlot
  · rw [slot, innerSlot, accepted, unbounded, unboundedAtAdd, owner,
      handles, List.length_set]
    exact invariant.owner
  · rw [State.spans, covered, handles,
      map_set_of_same found (spanSame state.covered)]
    exact invariant.chain
  · intro j handle atHandle isUnbounded
    obtain ⟨earlier, before, sameUnbounded, _⟩ := lookup j handle atHandle
    rw [handles, List.length_set]
    exact invariant.onlyLast j earlier before (sameUnbounded ▸ isUnbounded)
  · intro handle member
    obtain ⟨j, atHandle⟩ := List.getElem?_of_mem member
    obtain ⟨earlier, before, _, sameBase, sameFirst, _⟩ :=
      lookup j handle atHandle
    rw [sameBase, sameFirst]
    exact invariant.baseSlots earlier (List.mem_of_getElem? before)
  · intro handle member range shape
    obtain ⟨j, atHandle⟩ := List.getElem?_of_mem member
    obtain ⟨earlier, before, _, _, sameFirst, sameLast, sameRange⟩ :=
      lookup j handle atHandle
    rw [sameFirst, sameLast]
    exact invariant.counters earlier (List.mem_of_getElem? before) range
      (sameRange range shape)

/-- The empty queue satisfies the invariant. -/
theorem initial
    (N : BufferSize width)
    (buffer : Nat → Cell) :
    PhaseInvariant N (Queue.initial buffer : State Cell Waker) where
  cells := by
    simp [Queue.initial]
  innerSlot := by
    simp [Queue.initial, State.accepted, encodeSlot, phaseOf]
  owner := by
    refine ⟨true, ?_, ?_⟩
    · simp [Queue.initial, State.accepted, encodeSlot, phaseFlag]
    · simp [Queue.initial, State.hasUnbounded, phaseOf]
  chain := rfl
  onlyLast := by
    simp [Queue.initial]
  baseSlots := by
    simp [Queue.initial]
  counters := by
    simp [Queue.initial]

/-- The `fetch_add` extends the unbounded range, or leaves room for a new one. -/
theorem add
    (invariant : PhaseInvariant N state)
    {index : Nat}
    (at_ : state.owner = .adding index) :
    PhaseInvariant N
      { state with
        innerSlot :=
          wrappingAdd width state.innerSlot (1 <<< width.indexShift)
        owner := .replacing index state.innerSlot
        cells := state.cells ++ [index]
        unboundedAtAdd := state.hasUnbounded } := by
  have owner := invariant.owner
  rw [at_] at owner
  obtain ⟨indexShape, phase, slot, parity⟩ := owner
  have innerSlot := invariant.innerSlot
  have advanced :
      wrappingAdd width state.innerSlot (1 <<< width.indexShift) =
        encodeSlot width (state.accepted + 1) (phaseOf state.innerSlot) := by
    conv_lhs => rw [innerSlot]
    rw [wrappingAdd_encodeSlot]
  have coveredBefore : state.covered = state.accepted := by
    simp [State.covered, at_]
  have chain := invariant.chain
  rw [State.spans, coveredBefore] at chain
  refine {
    cells := ?_
    innerSlot := ?_
    owner := ?_
    chain := ?_
    onlyLast := invariant.onlyLast
    baseSlots := invariant.baseSlots
    counters := invariant.counters
  }
  · intro k cell atCell
    rcases getElem?_concat_cases atCell with before | ⟨isLast, isNew⟩
    · exact invariant.cells k cell before
    · rw [isNew, indexShape, isLast]
      rfl
  · simp only [State.accepted, List.length_append, List.length_cons,
      List.length_nil, Nat.zero_add]
    rw [advanced, phaseOf_encodeSlot]
    rfl
  · refine ⟨state.accepted, phaseOf state.innerSlot, phase,
      by simp [State.accepted], indexShape, innerSlot, slot, parity, ?_, ?_⟩
    · rw [advanced, phaseOf_encodeSlot]
      exact fun _ => parity
    · rw [advanced, phaseOf_encodeSlot]
      intro differ
      refine ⟨rfl, ?_⟩
      cases unbounded : state.hasUnbounded with
      | false =>
          exact unbounded
      | true =>
          exact (differ (parity.mp unbounded)).elim
  · by_cases joins : phaseOf state.innerSlot = phase
    · have extended :=
        chain_extend invariant.onlyLast (parity.mpr joins) chain
      simpa [State.spans, State.covered, slot, joins, State.accepted]
        using extended
    · simpa [State.spans, State.covered, slot, joins, State.accepted]
        using chain

/-- A call that joins a range leaves the owner with the phase it fetched. -/
theorem replaceJoined
    (invariant : PhaseInvariant N state)
    {index baseSlot : Nat}
    (at_ : state.owner = .replacing index baseSlot)
    (same : (baseSlot ^^^ state.slot) &&& phaseFlag = 0) :
    PhaseInvariant N
      { state with
        slot := wrappingAdd width baseSlot (1 <<< width.indexShift)
        owner := .returning .joined } := by
  have owner := invariant.owner
  rw [at_] at owner
  obtain ⟨position, basePhase, phase, accepted, _, base, slot,
    atAdd, parity, _⟩ := owner
  rw [base, slot, xor_and_phaseFlag_eq_zero_iff] at same
  refine invariant.of_same_ranges rfl rfl rfl ?_ ⟨?_, ?_, ?_⟩
  · simp [State.covered, at_, State.accepted, base, slot, same]
  · refine ⟨phase, ?_, parity same⟩
    change wrappingAdd width baseSlot _ = encodeSlot width state.accepted _
    rw [base, wrappingAdd_encodeSlot, accepted, same]
  · exact fun _ => atAdd.mpr same
  · nofun

/-- A call that opens a range goes on to occupy its region. -/
theorem replaceOpening
    (invariant : PhaseInvariant N state)
    {index baseSlot : Nat}
    (at_ : state.owner = .replacing index baseSlot)
    (differ : (baseSlot ^^^ state.slot) &&& phaseFlag ≠ 0) :
    PhaseInvariant N
      { state with
        slot := wrappingAdd width baseSlot (1 <<< width.indexShift)
        owner := .occupying index baseSlot } := by
  have owner := invariant.owner
  rw [at_] at owner
  obtain ⟨position, basePhase, phase, accepted, indexShape, base, slot,
    atAdd, _, opens⟩ := owner
  rw [base, slot, Ne, xor_and_phaseFlag_eq_zero_iff] at differ
  refine invariant.of_same_ranges rfl rfl rfl ?_
    ⟨position, basePhase, accepted, indexShape, base, ?_,
      (opens differ).1, (opens differ).2, ?_⟩
  · simp [State.covered, at_, State.accepted, base, slot, differ]
  · change wrappingAdd width baseSlot _ = encodeSlot width state.accepted _
    rw [base, wrappingAdd_encodeSlot, accepted]
  · exact Bool.eq_false_iff.mpr fun unbounded => differ (atAdd.mp unbounded)

/-- The new handle's range begins where the chain of ranges ended. -/
theorem occupy
    (invariant : PhaseInvariant N state)
    {index baseSlot occupancy : Nat}
    (at_ : state.owner = .occupying index baseSlot) :
    PhaseInvariant N
      { state with
        innerOccupancy := occupancy
        occupancy := occupancy
        handles :=
          state.handles ++ [⟨baseSlot, .unbounded, state.accepted - 1, 0⟩]
        owner := .returning (.opened state.handles.length) } := by
  have owner := invariant.owner
  rw [at_] at owner
  obtain ⟨position, phase, accepted, _, base, slot, inner, none_,
    atAdd⟩ := owner
  have coveredBefore : state.covered = position := by
    simp [State.covered, at_, accepted]
  have chain := invariant.chain
  rw [State.spans, coveredBefore] at chain
  refine {
    cells := invariant.cells
    innerSlot := invariant.innerSlot
    owner := ?_
    chain := ?_
    onlyLast := ?_
    baseSlots := ?_
    counters := ?_
  }
  · refine ⟨⟨phase, slot, ?_⟩, nofun, ?_⟩
    · simp [State.hasUnbounded, Handle.isUnbounded, inner]
    · intro handle isNew
      cases isNew
      exact ⟨atAdd, by simp⟩
  · have covered :
        State.covered
          ({ state with
              innerOccupancy := occupancy
              occupancy := occupancy
              handles :=
                state.handles ++
                  [⟨baseSlot, .unbounded, state.accepted - 1, 0⟩]
              owner := .returning (.opened state.handles.length) } :
            State Cell Waker) =
          position + 1 := by
      rw [← accepted]
      rfl
    simp only [State.spans, covered, List.map_append, List.map_cons,
      List.map_nil, chain_concat]
    rw [map_span_of_no_unbounded none_ (position + 1) position]
    simpa [Handle.span, Handle.isUnbounded, accepted] using chain
  · intro i handle atHandle unbounded
    rcases getElem?_concat_cases atHandle with before | ⟨isLast, _⟩
    · have member := List.mem_of_getElem? before
      exact (List.any_eq_false.mp none_ handle member unbounded).elim
    · simp [isLast]
  · intro handle member
    rcases List.mem_append.mp member with before | isNew
    · exact invariant.baseSlots handle before
    · rw [List.mem_singleton] at isNew
      subst isNew
      simp [base, accepted]
  · intro handle member range shape
    rcases List.mem_append.mp member with before | isNew
    · exact invariant.counters handle before range shape
    · rw [List.mem_singleton] at isNew
      subst isNew
      cases shape

/-- Bounding fixes the end of the unbounded range at the accepted tasks. -/
theorem setBounds
    (invariant : PhaseInvariant N state)
    {i : Nat}
    {handle : Handle}
    (found : state.handles[i]? = some handle)
    (stage : handle.stage = .unbounded) :
    PhaseInvariant N (Queue.setBounds width state i handle) := by
  have unbounded : handle.isUnbounded = true := by
    simp [Handle.isUnbounded, stage]
  have member : handle ∈ state.handles := List.mem_of_getElem? found
  have some_ : state.hasUnbounded = true :=
    List.any_eq_true.mpr ⟨handle, member, unbounded⟩
  have innerSlot := invariant.innerSlot
  have toggled :
      state.innerSlot ^^^ phaseFlag =
        encodeSlot width state.accepted (!phaseOf state.innerSlot) := by
    conv_lhs => rw [innerSlot]
    rw [encodeSlot_xor_phase]
  have phase :
      phaseOf (state.innerSlot ^^^ phaseFlag) =
        !phaseOf state.innerSlot := by
    rw [toggled, phaseOf_encodeSlot]
  have none_ :
      (Queue.setBounds width state i handle).hasUnbounded = false :=
    any_unbounded_set invariant.onlyLast found unbounded rfl
  have covered : state.covered = state.accepted := by
    have owner := invariant.owner
    rw [some_] at owner
    unfold State.covered
    split
    · rename_i index baseSlot at_
      rw [at_] at owner
      obtain ⟨position, basePhase, phase, _, _, base, slot, _, _, opens⟩ :=
        owner
      by_cases joins : basePhase = phase
      · simp [base, slot, joins]
      · exact absurd (opens joins).2 (by decide)
    · rename_i index baseSlot at_
      rw [at_] at owner
      obtain ⟨_, _, _, _, _, _, _, isFalse, _⟩ := owner
      cases isFalse
    · rfl
  have coveredAfter :
      (Queue.setBounds width state i handle).covered = state.accepted := by
    rw [← covered]
    rfl
  refine {
    cells := invariant.cells
    innerSlot := ?_
    owner := ?_
    chain := ?_
    onlyLast := ?_
    baseSlots := ?_
    counters := ?_
  }
  · change state.innerSlot ^^^ phaseFlag =
      encodeSlot width state.accepted
        (phaseOf (state.innerSlot ^^^ phaseFlag))
    rw [phase, toggled]
  · have owner := invariant.owner
    rw [some_] at owner
    have bounded := owner.bound
    rw [← phase] at bounded
    rw [none_]
    simpa [Queue.setBounds, State.setHandle, State.accepted] using bounded
  · have spanSame :
        Handle.span state.accepted
            { handle with
              stage := .bounded
                ⟨handle.baseSlot >>> width.indexShift,
                  state.innerSlot >>> width.indexShift⟩
              last := state.accepted } =
          handle.span state.accepted := by
      simp [Handle.span, Handle.isUnbounded, stage]
    have chain := invariant.chain
    rw [State.spans, covered] at chain
    rw [State.spans, coveredAfter]
    change Chain 0
      ((state.handles.set i _).map (Handle.span state.accepted)) _
    rw [map_set_of_same found spanSame]
    exact chain
  · intro j other atOther otherUnbounded
    have otherMember := List.mem_of_getElem? atOther
    exact (List.any_eq_false.mp none_ other otherMember otherUnbounded).elim
  · intro other otherMember
    rcases List.mem_or_eq_of_mem_set otherMember with before | isNew
    · exact invariant.baseSlots other before
    · subst isNew
      exact invariant.baseSlots handle member
  · intro other otherMember range shape
    rcases List.mem_or_eq_of_mem_set otherMember with before | isNew
    · exact invariant.counters other before range shape
    · subst isNew
      cases shape
      rw [invariant.baseSlots handle member]
      congr 1
      conv_lhs => rw [innerSlot]
      rw [encodeSlot_shiftRight]

/-- Each of the owner's moves preserves the invariant. -/
theorem ownerMove
    (invariant : PhaseInvariant N state)
    (move : OwnerMove N state after) :
    PhaseInvariant N after := by
  have owner := invariant.owner
  cases move with
  | @enterAtBoundary write at_ boundary =>
      rw [at_] at owner
      obtain ⟨phase, slot, parity⟩ := owner
      refine invariant.of_same_ranges rfl rfl rfl
        (by simp [State.covered, at_, State.accepted]) ⟨?_, phase, slot, parity⟩
      rw [State.currentWriteIndex, slot, slotIndex_encodeSlot]
      rfl
  | @enterInside write at_ inside =>
      rw [at_] at owner
      obtain ⟨phase, slot, parity⟩ := owner
      refine invariant.of_same_ranges rfl rfl rfl
        (by simp [State.covered, at_, State.accepted]) ⟨?_, phase, slot, parity⟩
      rw [State.currentWriteIndex, slot, slotIndex_encodeSlot]
      rfl
  | @cachedFree write index at_ free =>
      rw [at_] at owner
      exact invariant.of_same_ranges rfl rfl rfl
        (by simp [State.covered, at_, State.accepted]) owner
  | @cachedBusy write index at_ busy =>
      rw [at_] at owner
      exact invariant.of_same_ranges rfl rfl rfl
        (by simp [State.covered, at_, State.accepted]) owner
  | @loadedFree write index at_ free =>
      rw [at_] at owner
      exact invariant.of_same_ranges rfl rfl rfl
        (by simp [State.covered, at_, State.accepted]) owner
  | @loadedBusy write index at_ busy =>
      rw [at_] at owner
      refine invariant.of_same_ranges rfl rfl rfl
        (by simp [State.covered, at_, State.accepted]) ⟨owner.2, ?_, ?_⟩
      · nofun
      · nofun
  | @write write index at_ =>
      rw [at_] at owner
      exact invariant.of_same_ranges rfl rfl rfl
        (by simp [State.covered, at_, State.accepted, State.updateCell]) owner
  | @add index at_ =>
      exact invariant.add at_
  | @replaceJoined index baseSlot at_ same =>
      exact invariant.replaceJoined at_ same
  | @replaceOpening index baseSlot at_ differ =>
      exact invariant.replaceOpening at_ differ
  | @occupy index baseSlot at_ =>
      exact invariant.occupy at_

/-- Every step preserves the invariant. -/
theorem move
    (invariant : PhaseInvariant N state)
    {action : Action Cell Waker}
    (moved : Move N state action after) :
    PhaseInvariant N after := by
  have owner := invariant.owner
  cases moved with
  | @call write at_ =>
      rw [at_] at owner
      exact invariant.of_same_ranges rfl rfl rfl
        (by simp [State.covered, at_, State.accepted]) owner
  | owner moved =>
      exact invariant.ownerMove moved
  | @finish admission at_ =>
      rw [at_] at owner
      exact invariant.of_same_ranges rfl rfl rfl
        (by simp [State.covered, at_, State.accepted]) owner.1
  | @register waker at_ =>
      rw [at_] at owner
      exact invariant.of_same_ranges rfl rfl rfl
        (by simp [State.covered, at_, State.accepted]) owner.1
  | setBounds found stage =>
      exact invariant.setBounds found stage
  | @deoccupyRegion i handle range found stage =>
      refine invariant.of_release found (by simp [Handle.isUnbounded, stage])
        ?_ ?_ rfl rfl rfl rfl rfl rfl
      · split <;> simp
      · intro other
        split <;> simp
  | retry =>
      exact invariant
  | @steal i batchLimit handle found stage =>
      have wasBounded : handle.isUnbounded = false := by
        simp [Handle.isUnbounded, stage]
      unfold Queue.steal
      split
      · have released : Stage.released ≠ .unbounded := nofun
        exact invariant.of_release found wasBounded released nofun
          rfl rfl rfl rfl rfl rfl
      · refine invariant.of_release found wasBounded ?_ ?_
          rfl rfl rfl rfl rfl rfl
        · split <;> simp
        · intro other
          split <;> simp
  | touch =>
      exact invariant.of_same_ranges rfl rfl rfl rfl owner

end PhaseInvariant

/-- Every reachable state satisfies the phase invariant. -/
theorem Reachable.phaseInvariant
    {N : BufferSize width}
    {buffer : Nat → Cell}
    {state : State Cell Waker}
    (reachable : Reachable N buffer state) :
    PhaseInvariant N state :=
  TransitionSystem.Reachable.invariant
    (.initial N buffer)
    (fun _ invariant _ taken => invariant.move (step_move taken))
    reachable

end StackQueue.Queue
