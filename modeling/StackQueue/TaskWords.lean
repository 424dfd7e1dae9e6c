import StackQueue.TaskEnqueue

namespace StackQueue.TaskQueue

open Queue

/-!
# State words and drops

`WordInvariant` says what the state word of a cell tells about the cell's
latest task: `SETTING_VALUE` stands exactly while the value is written or after
it was discarded, and a task that is not resolved yet carries `RX_DROPPED` if
its future is being dropped.  It also says what a future that is being dropped
has seen: as long as the resolver uses the receiver, the drop has seen
`SETTING_VALUE` and goes on spinning.
-/

variable {Task Value : Type}

namespace Resolution

/-- `resolve_unchecked` has not reached its `fetch_or`. -/
def isPending : Resolution → Bool
  | .untouched | .visited => true
  | .setting | .stored | .woken | .set | .discarded => false

/-- `resolve_unchecked` is between its `fetch_or` and its `fetch_xor`. -/
def isResolving : Resolution → Bool
  | .setting | .stored | .woken => true
  | .untouched | .visited | .set | .discarded => false

/-- `resolve_unchecked` still uses the receiver. -/
def isAccessing : Resolution → Bool
  | .setting | .stored => true
  | .untouched | .visited | .woken | .set | .discarded => false

/-- The value is in the receiver. -/
def isStored : Resolution → Bool
  | .stored | .woken | .set => true
  | .untouched | .visited | .setting | .discarded => false

/-- The receiver's waker has been woken by the resolver. -/
def isWoken : Resolution → Bool
  | .woken | .set => true
  | .untouched | .visited | .setting | .stored | .discarded => false

theorem isResolving_of_isAccessing
    {resolution : Resolution}
    (accessing : resolution.isAccessing = true) :
    resolution.isResolving = true := by
  cases resolution <;> first | rfl | cases accessing

theorem not_isPending_of_isWoken
    {resolution : Resolution}
    (woken : resolution.isWoken = true) :
    resolution.isPending = false := by
  cases resolution <;> first | rfl | cases woken

theorem isStored_of_isWoken
    {resolution : Resolution}
    (woken : resolution.isWoken = true) :
    resolution.isStored = true := by
  cases resolution <;> first | rfl | cases woken

theorem not_isAccessing_of_isWoken
    {resolution : Resolution}
    (woken : resolution.isWoken = true) :
    resolution.isAccessing = false := by
  cases resolution <;> first | rfl | cases woken

end Resolution

/-- The state word of a task, given whether its future's drop has begun. -/
def WordAt (word : Nat) (dropBegun : Bool) : Resolution → Prop
  | .untouched | .visited =>
      isSetting word = false ∧
        isSet word = false ∧
        (dropBegun = true → isDropped word = true)
  | .setting | .stored | .woken =>
      isSetting word = true ∧ isSet word = false
  | .set =>
      isSetting word = false ∧ isSet word = true
  | .discarded =>
      isSetting word = true ∧
        isSet word = false ∧
        isDropped word = true

/-- What has become of a future, given how far its task is resolved. -/
def FutureAt (resolution : Resolution) : Future Task Value → Prop
  | .unbatched _ | .batched _ => True
  | .received => resolution.isWoken = true
  | .dropping _ seen =>
      resolution.isAccessing = true → isSetting seen = true
  | .dropped => resolution.isAccessing = false

/-- The state words of the latest tasks and the futures' drops. -/
structure WordInvariant
    {width : PointerWidth}
    (N : BufferSize width)
    (state : State Task Value) : Prop where
  words :
    ∀ (position future : Nat),
      state.enqueuers[position]? = some future →
      state.queue.InWindow N position →
      WordAt (state.queue.buffer (position % N.size)).state
        (state.futures future).isDropBegun
        (state.resolutions future)
  /-- The word of a task that is written but not accepted yet. -/
  newWord :
    ∀ index,
      state.queue.owner = .adding index →
      WordAt (state.queue.buffer index).state false .untouched
  futures :
    ∀ future,
      FutureAt (state.resolutions future) (state.futures future)
  notEnqueued :
    ∀ future,
      future ∉ state.enqueuers →
      state.resolutions future = .untouched

/-- A drop matters to the word of a task only until it is resolved. -/
theorem WordAt.of_dropBegun
    {word : Nat}
    {dropBegun dropBegunAfter : Bool}
    {resolution : Resolution}
    (wordAt : WordAt word dropBegun resolution)
    (begins :
      dropBegunAfter = true →
      dropBegun = true ∨ resolution.isPending = false) :
    WordAt word dropBegunAfter resolution := by
  cases resolution with
  | untouched | visited =>
      obtain ⟨notSetting, notSet, dropped⟩ := wordAt
      refine ⟨notSetting, notSet, fun isBegun => ?_⟩
      rcases begins isBegun with wasBegun | notPending
      · exact dropped wasBegun
      · cases notPending
  | setting | stored | woken | set | discarded =>
      exact wordAt

/-- Setting `RX_DROPPED` is compatible with every resolution. -/
theorem WordAt.or_rxDropped
    {word : Nat}
    {dropBegun : Bool}
    {resolution : Resolution}
    (wordAt : WordAt word dropBegun resolution)
    (dropBegunAfter : Bool) :
    WordAt (word ||| rxDropped) dropBegunAfter resolution := by
  cases resolution <;> simp_all [WordAt]

namespace WordInvariant

variable
    {width : PointerWidth}
    {N : BufferSize width}
    {task : Nat → Task}
    {state after : State Task Value}

theorem initial :
    WordInvariant N (TaskQueue.initial task : State Task Value) := by
  constructor <;>
    simp [TaskQueue.initial, Queue.initial, State.enqueuers, FutureAt]

/-- A step that leaves the cells and the resolutions alone. -/
theorem of_futures
    (invariant : WordInvariant N state)
    (cells : after.queue.cells = state.queue.cells)
    (buffer : after.queue.buffer = state.queue.buffer)
    (adding :
      ∀ index,
        state.queue.owner = .adding index ↔
          after.queue.owner = .adding index)
    (enqueued : after.enqueued = state.enqueued)
    (resolutions : after.resolutions = state.resolutions)
    (futures :
      ∀ future,
        FutureAt (state.resolutions future) (after.futures future))
    (begins :
      ∀ future ∈ state.enqueuers,
        (after.futures future).isDropBegun = true →
        (state.futures future).isDropBegun = true ∨
          (state.resolutions future).isPending = false) :
    WordInvariant N after := by
  have enqueuers := State.enqueuers_congr enqueued
  constructor
  case words =>
    intro position future atPosition inWindow
    rw [enqueuers] at atPosition
    rw [buffer, resolutions]
    refine (invariant.words position future atPosition ?_).of_dropBegun
      (begins future (List.mem_of_getElem? atPosition))
    refine inWindow.of_same cells fun index at_ => ?_
    rw [(adding index).mp at_]
    rfl
  case newWord =>
    intro index at_
    rw [buffer]
    exact invariant.newWord index ((adding index).mpr at_)
  case futures =>
    rw [resolutions]
    exact futures
  case notEnqueued =>
    rw [enqueuers, resolutions]
    exact invariant.notEnqueued

/-- A step that leaves the futures alone as well. -/
theorem of_same
    (invariant : WordInvariant N state)
    (cells : after.queue.cells = state.queue.cells)
    (buffer : after.queue.buffer = state.queue.buffer)
    (adding :
      ∀ index,
        state.queue.owner = .adding index ↔
          after.queue.owner = .adding index)
    (enqueued : after.enqueued = state.enqueued)
    (resolutions : after.resolutions = state.resolutions)
    (futures : after.futures = state.futures) :
    WordInvariant N after := by
  refine invariant.of_futures cells buffer adding enqueued resolutions ?_ ?_
  · rw [futures]
    exact invariant.futures
  · rw [futures]
    exact fun _ _ begun => Or.inl begun

/-- A step of one future, which reads its word at most. -/
theorem of_future
    (invariant : WordInvariant N state)
    {future : Nat}
    {stage : Future Task Value}
    (futures :
      after.futures = Function.update state.futures future stage)
    (futureAt : FutureAt (state.resolutions future) stage)
    (begins :
      future ∈ state.enqueuers →
      stage.isDropBegun = true →
      (state.futures future).isDropBegun = true ∨
        (state.resolutions future).isPending = false)
    (queue : after.queue = state.queue)
    (enqueued : after.enqueued = state.enqueued)
    (resolutions : after.resolutions = state.resolutions) :
    WordInvariant N after := by
  refine invariant.of_futures (by rw [queue]) (by rw [queue])
    (fun _ => by rw [queue]) enqueued resolutions ?_ ?_
  · intro other
    by_cases same : other = future
    · rw [same, futures, Function.update_self]
      exact futureAt
    · rw [futures, Function.update_of_ne same]
      exact invariant.futures other
  · intro other member begun
    by_cases same : other = future
    · rw [same] at member begun ⊢
      rw [futures, Function.update_self] at begun
      exact begins member begun
    · rw [futures, Function.update_of_ne same] at begun
      exact Or.inl begun

/-- The owner resets the word of the next cell. -/
theorem write
    (invariant : WordInvariant N state)
    (enqueue : EnqueueInvariant N task state)
    (phase : PhaseInvariant N state.queue)
    {index : Nat}
    {call : Call Task}
    (at_ :
      state.queue.owner =
        .writing (TaskRef.init call.task call.future) index)
    (holds : state.futures call.future = .unbatched call.task)
    (queue :
      after.queue =
        { state.queue.updateCell index
            (TaskRef.init call.task call.future) with
          owner := .adding index })
    (futures :
      after.futures =
        Function.update state.futures call.future
          (.batched ⟨index, none, call.waker⟩))
    (enqueued : after.enqueued = state.enqueued)
    (resolutions : after.resolutions = state.resolutions) :
    WordInvariant N after := by
  obtain ⟨_, fresh⟩ := enqueue.unbatched _ _ holds
  have enqueuers := State.enqueuers_congr enqueued
  constructor
  case words =>
    intro position future atPosition inWindow
    rw [enqueuers] at atPosition
    obtain ⟨differs, wasInWindow⟩ :=
      Queue.State.InWindow.of_write phase at_ (by rw [queue]; rfl)
        (by rw [queue]) inWindow (enqueue.accepted_of_enqueuer atPosition)
    have other : future ≠ call.future := by
      intro same
      exact fresh (same ▸ List.mem_of_getElem? atPosition)
    rw [queue]
    simp only [Queue.State.updateCell_of_ne state.queue _ differs]
    rw [futures, Function.update_of_ne other, resolutions]
    exact invariant.words position future atPosition wasInWindow
  case newWord =>
    intro other isAdding
    rw [queue] at isAdding ⊢
    cases isAdding
    simp only [Queue.State.updateCell, Function.update_self]
    exact ⟨isSetting_zero, isSet_zero, fun begun => by cases begun⟩
  case futures =>
    intro other
    rw [futures, resolutions]
    by_cases same : other = call.future
    · rw [same, Function.update_self]
      trivial
    · rw [Function.update_of_ne same]
      exact invariant.futures other
  case notEnqueued =>
    rw [enqueuers, resolutions]
    exact invariant.notEnqueued

/-- The `fetch_add` accepts a task that nobody has touched. -/
theorem add
    (invariant : WordInvariant N state)
    (enqueue : EnqueueInvariant N task state)
    (phase : PhaseInvariant N state.queue)
    {index baseSlot : Nat}
    {call : Call Task}
    {receiver : Receiver Value}
    (at_ : state.queue.owner = .adding index)
    (holds : state.futures call.future = .batched receiver)
    (fresh : call.future ∉ state.enqueuers)
    (cells : after.queue.cells = state.queue.cells ++ [index])
    (buffer : after.queue.buffer = state.queue.buffer)
    (owner : after.queue.owner = .replacing index baseSlot)
    (futures : after.futures = state.futures)
    (enqueued :
      after.enqueued = state.enqueued ++ [(call.future, call.task)])
    (resolutions : after.resolutions = state.resolutions) :
    WordInvariant N after := by
  have accepted : after.queue.accepted = state.queue.accepted + 1 := by
    simp [Queue.State.accepted, cells]
  have enqueuers := State.enqueuers_concat enqueued
  have length := enqueue.length_enqueuers
  have next := phase.adding_index at_
  constructor
  case words =>
    intro position future atPosition inWindow
    rw [enqueuers] at atPosition
    rw [buffer, futures, resolutions]
    rcases ListUpdate.getElem?_concat_cases atPosition with
      earlier | ⟨last, isNew⟩
    · exact invariant.words position future earlier
        (inWindow.of_add accepted)
    · rw [last, length, ← next, isNew, holds,
        invariant.notEnqueued _ fresh]
      exact invariant.newWord index at_
  case newWord =>
    intro other isAdding
    rw [owner] at isAdding
    cases isAdding
  case futures =>
    rw [futures, resolutions]
    exact invariant.futures
  case notEnqueued =>
    intro other notMember
    rw [enqueuers, List.mem_append, not_or] at notMember
    rw [resolutions]
    exact invariant.notEnqueued other notMember.1

/-- A step that processes the task at one position of the window. -/
theorem of_resolution
    (invariant : WordInvariant N state)
    (enqueue : EnqueueInvariant N task state)
    (phase : PhaseInvariant N state.queue)
    {position future : Nat}
    {resolution : Resolution}
    {ref : TaskRef Task}
    (atPosition : state.enqueuers[position]? = some future)
    (inWindow : state.queue.InWindow N position)
    (buffer :
      after.queue.buffer =
        Function.update state.queue.buffer (position % N.size) ref)
    (resolutions :
      after.resolutions =
        Function.update state.resolutions future resolution)
    (wordAt :
      WordAt ref.state (state.futures future).isDropBegun resolution)
    (futureAt : FutureAt resolution (after.futures future))
    (sameBegun :
      (after.futures future).isDropBegun =
        (state.futures future).isDropBegun)
    (elsewhere :
      ∀ other,
        other ≠ future → after.futures other = state.futures other)
    (cells : after.queue.cells = state.queue.cells)
    (owner : after.queue.owner = state.queue.owner)
    (enqueued : after.enqueued = state.enqueued) :
    WordInvariant N after := by
  have enqueuers := State.enqueuers_congr enqueued
  constructor
  case words =>
    intro index other found inWindowAfter
    rw [enqueuers] at found
    have inWindowBefore : state.queue.InWindow N index :=
      inWindowAfter.of_same cells fun _ at_ => by rw [owner, at_]; rfl
    by_cases same : other = future
    · have here : index = position := by
        rw [same] at found
        exact enqueue.position_unique found atPosition
      rw [same, here, buffer, resolutions, Function.update_self,
        Function.update_self, sameBegun]
      exact wordAt
    · have otherCell : index % N.size ≠ position % N.size := by
        intro sameCell
        have here :=
          inWindowBefore.unique inWindow
            (enqueue.accepted_of_enqueuer found)
            (enqueue.accepted_of_enqueuer atPosition) sameCell
        rw [here, atPosition] at found
        cases found
        exact same rfl
      rw [buffer, Function.update_of_ne otherCell, resolutions,
        Function.update_of_ne same, elsewhere other same]
      exact invariant.words index other found inWindowBefore
  case newWord =>
    intro index at_
    rw [owner] at at_
    have otherCell :=
      Queue.State.InWindow.not_adding phase at_ inWindow
        (enqueue.accepted_of_enqueuer atPosition)
    rw [buffer, Function.update_of_ne otherCell.symm]
    exact invariant.newWord index at_
  case futures =>
    intro other
    by_cases same : other = future
    · rw [same, resolutions, Function.update_self]
      exact futureAt
    · rw [resolutions, Function.update_of_ne same, elsewhere other same]
      exact invariant.futures other
  case notEnqueued =>
    intro other notMember
    rw [enqueuers] at notMember
    have same : other ≠ future := by
      intro isFuture
      exact notMember (isFuture ▸ List.mem_of_getElem? atPosition)
    rw [resolutions, Function.update_of_ne same]
    exact invariant.notEnqueued other notMember

/-- A batched future sets `RX_DROPPED` in the word its receiver points to. -/
theorem drop
    (invariant : WordInvariant N state)
    (enqueue : EnqueueInvariant N task state)
    {future : Nat}
    {receiver : Receiver Value}
    {seen : Nat}
    (outside : state.isPolling future = false)
    (holds : state.futures future = .batched receiver)
    (sees :
      (state.resolutions future).isAccessing = true →
      isSetting seen = true)
    (queue :
      after.queue =
        state.queue.updateCell receiver.state
          (TaskRef.updateState (· ||| rxDropped)))
    (futures :
      after.futures =
        Function.update state.futures future (.dropping receiver seen))
    (enqueued : after.enqueued = state.enqueued)
    (resolutions : after.resolutions = state.resolutions) :
    WordInvariant N after := by
  have enqueuers := State.enqueuers_congr enqueued
  have atWord :
      after.queue.buffer receiver.state =
        TaskRef.updateState (· ||| rxDropped)
          (state.queue.buffer receiver.state) := by
    rw [queue]
    exact Queue.State.updateCell_self state.queue receiver.state _
  have elsewhere {cell : Nat} (differs : cell ≠ receiver.state) :
      after.queue.buffer cell = state.queue.buffer cell := by
    rw [queue]
    exact Queue.State.updateCell_of_ne state.queue _ differs
  constructor
  case words =>
    intro position other atPosition inWindow
    rw [enqueuers] at atPosition
    rw [queue] at inWindow
    have before := invariant.words position other atPosition inWindow
    rw [resolutions]
    by_cases here : position % N.size = receiver.state
    · rw [here] at before ⊢
      rw [atWord]
      exact before.or_rxDropped _
    · have differs : other ≠ future := by
        intro same
        rcases enqueue.receivers future receiver
            (Future.receiver?_of_batched holds) with
          ⟨index, found, cell⟩ | ⟨isPolling, _⟩
        · rw [same] at atPosition
          have samePosition := enqueue.position_unique atPosition found
          rw [samePosition] at here
          exact here cell.symm
        · rw [outside] at isPolling
          cases isPolling
      rw [elsewhere here, futures, Function.update_of_ne differs]
      exact before
  case newWord =>
    intro index at_
    rw [queue] at at_
    have before := invariant.newWord index at_
    by_cases here : index = receiver.state
    · rw [here] at before ⊢
      rw [atWord]
      exact before.or_rxDropped _
    · rw [elsewhere here]
      exact before
  case futures =>
    intro other
    rw [resolutions, futures]
    by_cases same : other = future
    · rw [same, Function.update_self]
      exact sees
    · rw [Function.update_of_ne same]
      exact invariant.futures other
  case notEnqueued =>
    rw [enqueuers, resolutions]
    exact invariant.notEnqueued

end WordInvariant

end StackQueue.TaskQueue
