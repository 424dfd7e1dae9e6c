import StackQueue.TaskCompletion
import StackQueue.TaskWakers

namespace StackQueue.TaskQueue

open Queue

/-!
# Drops that strike the word of another task

The receiver of a future keeps its pointer to the word of a cell when the cell
is given to a later task, and the drop of the future sets `RX_DROPPED` there
all the same.  A drop that finds the word of another task strikes it: the
resolver of that task will discard the value although its own future is not
being dropped.  And a drop that has seen `SETTING_VALUE` spins on whatever the
word says later on.

`StrikeInvariant` says that `RX_DROPPED` stands in the word of a pending task
exactly if its future is being dropped or its word has been struck.
-/

variable {Task Value : Type}

/-- The future whose word a drop of another future strikes. -/
def strikes : State Task Value × Action Value → Option Nat
  | (state, .drop future) =>
      match state.futures future with
      | .batched receiver =>
          (state.queue.buffer receiver.state).rx.filter (· ≠ future)
      | _ => none
  | _ => none

/-- The futures whose words have been struck. -/
def struck
    (trace : List (State Task Value × Action Value)) :
    List Nat :=
  trace.filterMap strikes

/--
No value is discarded but for its own future's drop, and a drop spins only
while a resolver is about to clear `SETTING_VALUE` in its word.
-/
structure NoInterference (state : State Task Value) : Prop where
  discarded :
    ∀ future,
      state.resolutions future = .discarded →
      (state.futures future).isDropBegun = true
  spinning :
    ∀ future receiver seen,
      state.futures future = .dropping receiver seen →
      isSetting seen = true →
      isSetting (state.queue.buffer receiver.state).state = true →
      ∃ batch method todo value point,
        state.batches batch =
            .resolving method todo receiver.state value point ∧
          point ≠ .fetchOr

/--
What a step has to respect after the steps before it.  A drop begins on no
word of a discarded task; a task whose word was struck is resolved only after
its own drop has begun; and when a task is resolved whose drop has begun, no
other drop is still spinning on its word.
-/
def SparesOthers
    (earlier : List (State Task Value × Action Value)) :
    State Task Value × Action Value → Prop
  | (state, .drop future) =>
      ∀ receiver other,
        state.futures future = .batched receiver →
        (state.queue.buffer receiver.state).rx = some other →
        state.resolutions other ≠ .discarded
  | (state, .resolve batch) =>
      ∀ method todo cell value other,
        state.batches batch =
          .resolving method todo cell value .fetchOr →
        (state.queue.buffer cell).rx = some other →
        (other ∈ struck earlier →
          (state.futures other).isDropBegun = true) ∧
          ((state.futures other).isDropBegun = true →
            ∀ future receiver seen,
              state.futures future = .dropping receiver seen →
              receiver.state = cell →
              isSetting seen = false)
  | _ => True

/-- The words that drops have set and seen, given which were struck. -/
structure StrikeInvariant
    {width : PointerWidth}
    (N : BufferSize width)
    (struck : List Nat)
    (state : State Task Value) : Prop where
  words :
    ∀ (position future : Nat),
      state.enqueuers[position]? = some future →
      state.queue.InWindow N position →
      (state.resolutions future).isPending = true →
      (isDropped (state.queue.buffer (position % N.size)).state = true ↔
        (state.futures future).isDropBegun = true ∨ future ∈ struck)
  /-- The word of the task that is being enqueued. -/
  newWord :
    ∀ index call,
      state.queue.owner = .adding index →
      state.polling = some call →
      (isDropped (state.queue.buffer index).state = true ↔
        call.future ∈ struck)
  /-- A word is struck once its task has been written. -/
  written :
    ∀ future ∈ struck,
      future ∈ state.enqueuers ∨
        (state.isPolling future = true ∧
          state.queue.owner.isAdding = true)
  discarded :
    ∀ future,
      state.resolutions future = .discarded →
      (state.futures future).isDropBegun = true
  /-- A drop that saw `SETTING_VALUE` has no discarded task before it. -/
  spinning :
    ∀ future receiver seen other,
      state.futures future = .dropping receiver seen →
      isSetting seen = true →
      (state.queue.buffer receiver.state).rx = some other →
      state.resolutions other ≠ .discarded

/-- Marking a task as anything else discards nothing. -/
theorem discarded_of_update
    {before after : Nat → Resolution}
    {future : Nat}
    {next : Resolution}
    (updated : after = Function.update before future next)
    (notDiscarded : next ≠ .discarded)
    {other : Nat}
    (discarded : after other = .discarded) :
    before other = .discarded := by
  by_cases same : other = future
  · rw [same, updated, Function.update_self] at discarded
    exact absurd discarded notDiscarded
  · rw [updated, Function.update_of_ne same] at discarded
    exact discarded

namespace StrikeInvariant

variable
    {width : PointerWidth}
    {program : Program Task Value}
    {N : BufferSize width}
    {task : Nat → Task}
    {earlier : List Nat}
    {state after : State Task Value}

theorem initial :
    StrikeInvariant N [] (TaskQueue.initial task : State Task Value) := by
  constructor <;>
    simp [TaskQueue.initial, Queue.initial, State.enqueuers]

/-- A step that sets `RX_DROPPED` nowhere and enqueues no task. -/
theorem of_frame
    (invariant : StrikeInvariant N earlier state)
    (cells : after.queue.cells = state.queue.cells)
    (enqueued : after.enqueued = state.enqueued)
    (adding :
      ∀ index,
        after.queue.owner = .adding index ↔
          state.queue.owner = .adding index)
    (polling :
      ∀ index,
        state.queue.owner = .adding index →
        after.polling = state.polling)
    (pointers :
      ∀ cell,
        (after.queue.buffer cell).rx = (state.queue.buffer cell).rx)
    (flags :
      ∀ cell,
        isDropped (after.queue.buffer cell).state =
          isDropped (state.queue.buffer cell).state)
    (pending :
      ∀ future,
        (after.resolutions future).isPending = true →
        (state.resolutions future).isPending = true)
    (discards :
      ∀ future,
        after.resolutions future = .discarded →
        state.resolutions future = .discarded)
    (begins :
      ∀ future ∈ state.enqueuers,
        (after.futures future).isDropBegun = true →
        (state.futures future).isDropBegun = true ∨
          (state.resolutions future).isPending = false)
    (stays :
      ∀ future,
        (state.futures future).isDropBegun = true →
        (after.futures future).isDropBegun = true)
    (spins :
      ∀ future receiver seen,
        after.futures future = .dropping receiver seen →
        isSetting seen = true →
        ∃ old oldSeen,
          state.futures future = .dropping old oldSeen ∧
            isSetting oldSeen = true ∧
            old.state = receiver.state) :
    StrikeInvariant N earlier after := by
  have enqueuers := State.enqueuers_congr enqueued
  constructor
  case words =>
    intro position future atPosition inWindow isPending
    rw [enqueuers] at atPosition
    have wasInWindow : state.queue.InWindow N position :=
      inWindow.of_same cells fun index at_ => by
        rw [(adding index).mpr at_]
        rfl
    have wasPending := pending future isPending
    rw [flags, invariant.words position future atPosition wasInWindow
      wasPending]
    apply or_congr_left
    refine ⟨stays future, fun begun => ?_⟩
    rcases begins future (List.mem_of_getElem? atPosition) begun with
      wasBegun | notPending
    · exact wasBegun
    · rw [wasPending] at notPending
      cases notPending
  case newWord =>
    intro index call at_ called
    have wasAdding := (adding index).mp at_
    rw [polling index wasAdding] at called
    rw [flags]
    exact invariant.newWord index call wasAdding called
  case written =>
    intro future member
    rw [enqueuers]
    refine (invariant.written future member).imp_right ?_
    rintro ⟨isPolling, wasAdding⟩
    cases at_ : state.queue.owner with
    | adding index =>
        rw [State.isPolling, polling index at_, (adding index).mpr at_]
        exact ⟨isPolling, rfl⟩
    | _ =>
        rw [at_] at wasAdding
        cases wasAdding
  case discarded =>
    intro future isDiscarded
    exact stays future (invariant.discarded future
      (discards future isDiscarded))
  case spinning =>
    intro future receiver seen other holds isOn pointer isDiscarded
    obtain ⟨old, oldSeen, held, wasOn, sameWord⟩ :=
      spins future receiver seen holds isOn
    rw [pointers, ← sameWord] at pointer
    exact invariant.spinning future old oldSeen other held wasOn pointer
      (discards other isDiscarded)

/-- A step outside the futures and the flags. -/
theorem of_same
    (invariant : StrikeInvariant N earlier state)
    (cells : after.queue.cells = state.queue.cells)
    (enqueued : after.enqueued = state.enqueued)
    (adding :
      ∀ index,
        after.queue.owner = .adding index ↔
          state.queue.owner = .adding index)
    (polling :
      ∀ index,
        state.queue.owner = .adding index →
        after.polling = state.polling)
    (pointers :
      ∀ cell,
        (after.queue.buffer cell).rx = (state.queue.buffer cell).rx)
    (flags :
      ∀ cell,
        isDropped (after.queue.buffer cell).state =
          isDropped (state.queue.buffer cell).state)
    (pending :
      ∀ future,
        (after.resolutions future).isPending = true →
        (state.resolutions future).isPending = true)
    (discards :
      ∀ future,
        after.resolutions future = .discarded →
        state.resolutions future = .discarded)
    (futures : after.futures = state.futures) :
    StrikeInvariant N earlier after := by
  refine invariant.of_frame cells enqueued adding polling pointers flags
    pending discards ?_ ?_ ?_
  · rw [futures]
    exact fun _ _ begun => Or.inl begun
  · rw [futures]
    exact fun _ begun => begun
  · rw [futures]
    exact fun _ receiver seen holds isOn =>
      ⟨receiver, seen, holds, isOn, rfl⟩

/-- A step of one future that leaves its word alone. -/
theorem of_future
    (invariant : StrikeInvariant N earlier state)
    {future : Nat}
    {stage : Future Task Value}
    (futures :
      after.futures = Function.update state.futures future stage)
    (begins :
      future ∈ state.enqueuers →
      stage.isDropBegun = true →
      (state.futures future).isDropBegun = true ∨
        (state.resolutions future).isPending = false)
    (stays :
      (state.futures future).isDropBegun = true →
      stage.isDropBegun = true)
    (spins :
      ∀ receiver seen,
        stage = .dropping receiver seen →
        isSetting seen = true →
        ∃ old oldSeen,
          state.futures future = .dropping old oldSeen ∧
            isSetting oldSeen = true ∧
            old.state = receiver.state)
    (queue : after.queue = state.queue)
    (polling : after.polling = state.polling)
    (enqueued : after.enqueued = state.enqueued)
    (pending :
      ∀ other,
        (after.resolutions other).isPending = true →
        (state.resolutions other).isPending = true)
    (discards :
      ∀ other,
        after.resolutions other = .discarded →
        state.resolutions other = .discarded) :
    StrikeInvariant N earlier after := by
  refine invariant.of_frame (by rw [queue]) enqueued (fun _ => by rw [queue])
    (fun _ _ => polling) (fun _ => by rw [queue]) (fun _ => by rw [queue])
    pending discards ?_ ?_ ?_
  · intro other member begun
    by_cases same : other = future
    · rw [same] at member begun ⊢
      rw [futures, Function.update_self] at begun
      exact begins member begun
    · rw [futures, Function.update_of_ne same] at begun
      exact Or.inl begun
  · intro other begun
    by_cases same : other = future
    · rw [same] at begun ⊢
      rw [futures, Function.update_self]
      exact stays begun
    · rw [futures, Function.update_of_ne same]
      exact begun
  · intro other receiver seen holds isOn
    by_cases same : other = future
    · rw [same] at holds ⊢
      rw [futures, Function.update_self] at holds
      exact spins receiver seen holds isOn
    · rw [futures, Function.update_of_ne same] at holds
      exact ⟨receiver, seen, holds, isOn, rfl⟩

/-- The owner resets the word of the next cell. -/
theorem write
    (invariant : StrikeInvariant N earlier state)
    (enqueue : EnqueueInvariant N task state)
    (words : WordInvariant N state)
    (phase : PhaseInvariant N state.queue)
    {index : Nat}
    {call : Call Task}
    (at_ :
      state.queue.owner =
        .writing (TaskRef.init call.task call.future) index)
    (called : state.polling = some call)
    (holds : state.futures call.future = .unbatched call.task)
    (queue :
      after.queue =
        { state.queue.updateCell index
            (TaskRef.init call.task call.future) with
          owner := .adding index })
    (futures :
      after.futures =
        Function.update state.futures call.future
          (.batched ⟨index, none, call.waker⟩))
    (polling : after.polling = state.polling)
    (enqueued : after.enqueued = state.enqueued)
    (resolutions : after.resolutions = state.resolutions) :
    StrikeInvariant N earlier after := by
  obtain ⟨_, fresh⟩ := enqueue.unbatched _ _ holds
  have untouched := words.notEnqueued call.future fresh
  have enqueuers := State.enqueuers_congr enqueued
  have notStruck : call.future ∉ earlier := by
    intro member
    rcases invariant.written call.future member with old | ⟨_, adding⟩
    · exact fresh old
    · rw [at_] at adding
      cases adding
  have here :
      after.queue.buffer index =
        TaskRef.init call.task call.future (state.queue.buffer index) := by
    rw [queue]
    exact Queue.State.updateCell_self state.queue index _
  have elsewhere {cell : Nat} (differs : cell ≠ index) :
      after.queue.buffer cell = state.queue.buffer cell := by
    rw [queue]
    exact Queue.State.updateCell_of_ne state.queue _ differs
  constructor
  case words =>
    intro position future atPosition inWindow isPending
    rw [enqueuers] at atPosition
    obtain ⟨differs, wasInWindow⟩ :=
      Queue.State.InWindow.of_write phase at_ (by rw [queue]; rfl)
        (by rw [queue]) inWindow (enqueue.accepted_of_enqueuer atPosition)
    have other : future ≠ call.future := by
      intro same
      exact fresh (same ▸ List.mem_of_getElem? atPosition)
    rw [resolutions] at isPending
    rw [elsewhere differs, futures, Function.update_of_ne other]
    exact invariant.words position future atPosition wasInWindow isPending
  case newWord =>
    intro cell other isAdding isCall
    rw [polling, called] at isCall
    cases isCall
    rw [queue] at isAdding
    cases isAdding
    have clear :
        isDropped
            (TaskRef.init call.task call.future
              (state.queue.buffer index)).state =
          false :=
      isDropped_zero
    rw [here, clear]
    exact ⟨(fun isOn => by cases isOn),
      fun member => absurd member notStruck⟩
  case written =>
    intro future member
    rw [enqueuers]
    left
    rcases invariant.written future member with old | ⟨_, adding⟩
    · exact old
    · rw [at_] at adding
      cases adding
  case discarded =>
    intro future isDiscarded
    rw [resolutions] at isDiscarded
    have other : future ≠ call.future := by
      intro same
      rw [same, untouched] at isDiscarded
      cases isDiscarded
    rw [futures, Function.update_of_ne other]
    exact invariant.discarded future isDiscarded
  case spinning =>
    intro future receiver seen other dropping isOn pointer
    rw [resolutions]
    have differs : future ≠ call.future := by
      intro same
      rw [same, futures, Function.update_self] at dropping
      cases dropping
    rw [futures, Function.update_of_ne differs] at dropping
    by_cases same : receiver.state = index
    · rw [same, here] at pointer
      cases pointer
      rw [untouched]
      exact fun isDiscarded => by cases isDiscarded
    · rw [elsewhere same] at pointer
      exact invariant.spinning future receiver seen other dropping isOn
        pointer

/-- The `fetch_add` accepts the task in the word that was reset last. -/
theorem add
    (invariant : StrikeInvariant N earlier state)
    (enqueue : EnqueueInvariant N task state)
    (phase : PhaseInvariant N state.queue)
    {index baseSlot : Nat}
    {call : Call Task}
    {receiver : Receiver Value}
    (at_ : state.queue.owner = .adding index)
    (called : state.polling = some call)
    (holds : state.futures call.future = .batched receiver)
    (cells : after.queue.cells = state.queue.cells ++ [index])
    (buffer : after.queue.buffer = state.queue.buffer)
    (owner : after.queue.owner = .replacing index baseSlot)
    (futures : after.futures = state.futures)
    (enqueued :
      after.enqueued = state.enqueued ++ [(call.future, call.task)])
    (resolutions : after.resolutions = state.resolutions) :
    StrikeInvariant N earlier after := by
  have accepted : after.queue.accepted = state.queue.accepted + 1 := by
    simp [Queue.State.accepted, cells]
  have enqueuers := State.enqueuers_concat enqueued
  have length := enqueue.length_enqueuers
  have next := phase.adding_index at_
  constructor
  case words =>
    intro position future atPosition inWindow isPending
    rw [enqueuers] at atPosition
    rw [resolutions] at isPending
    rw [buffer, futures]
    rcases ListUpdate.getElem?_concat_cases atPosition with
      old | ⟨last, isNew⟩
    · exact invariant.words position future old
        (inWindow.of_add accepted) isPending
    · rw [last, length, ← next, isNew, holds,
        invariant.newWord index call at_ called]
      simp [Future.isDropBegun]
  case newWord =>
    intro cell other isAdding
    rw [owner] at isAdding
    cases isAdding
  case written =>
    intro future member
    left
    rw [enqueuers, List.mem_append, List.mem_singleton]
    refine (invariant.written future member).imp_right ?_
    rintro ⟨isPolling, _⟩
    simpa [State.isPolling, called, eq_comm] using isPolling
  case discarded =>
    rw [futures, resolutions]
    exact invariant.discarded
  case spinning =>
    rw [futures, resolutions, buffer]
    exact invariant.spinning

/-- The owner's steps set and see no flag. -/
theorem ownerMove
    (invariant : StrikeInvariant N earlier state)
    (enqueue : EnqueueInvariant N task state)
    (words : WordInvariant N state)
    (phase : PhaseInvariant N state.queue)
    {queue : Queue.State (TaskRef Task) Nat}
    (moved : OwnerMove N state.queue queue) :
    StrikeInvariant N earlier { state.progress with queue := queue } := by
  have callAt := enqueue.callAt
  cases moved with
  | write at_ =>
      rw [at_] at callAt
      obtain ⟨call, called, written, holds⟩ := callAt
      subst written
      exact invariant.write enqueue words phase at_ called holds rfl
        (by simp [State.progress, at_, called]) rfl
        (by simp [State.progress, at_]) rfl
  | add at_ =>
      rw [at_] at callAt
      obtain ⟨call, _, called, holds, _⟩ := callAt
      exact invariant.add enqueue phase at_ called holds rfl rfl rfl
        (by simp [State.progress, at_])
        (by simp [State.progress, at_, called]) rfl
  | occupy at_ | enterAtBoundary at_ _ | enterInside at_ _
  | cachedFree at_ _ | cachedBusy at_ _ | loadedFree at_ _
  | loadedBusy at_ _ | replaceJoined at_ _ | replaceOpening at_ _ =>
      exact invariant.of_same rfl (by simp [State.progress, at_])
        (by simp [at_]) (fun _ _ => rfl) (fun _ => rfl) (fun _ => rfl)
        (fun _ => id) (fun _ => id) (by simp [State.progress, at_])

/-- A value is discarded for a future that is being dropped. -/
theorem discard
    (invariant : StrikeInvariant N earlier state)
    (enqueue : EnqueueInvariant N task state)
    (phase : PhaseInvariant N state.queue)
    {position cell other : Nat}
    (atPosition : state.enqueuers[position]? = some other)
    (isCell : cell = position % N.size)
    (begun : (state.futures other).isDropBegun = true)
    (noSpin :
      ∀ future receiver seen,
        state.futures future = .dropping receiver seen →
        receiver.state = cell →
        isSetting seen = false)
    (cells : after.queue.cells = state.queue.cells)
    (owner : after.queue.owner = state.queue.owner)
    (polling : after.polling = state.polling)
    (enqueued : after.enqueued = state.enqueued)
    (futures : after.futures = state.futures)
    (pointers :
      ∀ index,
        (after.queue.buffer index).rx = (state.queue.buffer index).rx)
    (flags :
      ∀ index,
        isDropped (after.queue.buffer index).state =
          isDropped (state.queue.buffer index).state)
    (pending :
      ∀ future,
        (after.resolutions future).isPending = true →
        (state.resolutions future).isPending = true)
    (resolutions :
      after.resolutions =
        Function.update state.resolutions other .discarded) :
    StrikeInvariant N earlier after := by
  have enqueuers := State.enqueuers_congr enqueued
  constructor
  case words =>
    intro index future found inWindow isPending
    rw [enqueuers] at found
    have wasInWindow : state.queue.InWindow N index :=
      inWindow.of_same cells fun _ at_ => by rw [owner, at_]; rfl
    rw [flags, futures]
    exact invariant.words index future found wasInWindow
      (pending future isPending)
  case newWord =>
    intro index call at_ called
    rw [owner] at at_
    rw [polling] at called
    rw [flags]
    exact invariant.newWord index call at_ called
  case written =>
    intro future member
    rw [enqueuers, State.isPolling, polling, owner]
    exact invariant.written future member
  case discarded =>
    intro future isDiscarded
    rw [futures]
    by_cases same : future = other
    · rw [same]
      exact begun
    · rw [resolutions, Function.update_of_ne same] at isDiscarded
      exact invariant.discarded future isDiscarded
  case spinning =>
    intro future receiver seen occupant dropping isOn pointer
    rw [futures] at dropping
    rw [pointers] at pointer
    by_cases same : occupant = other
    · exfalso
      have holds := Future.receiver?_of_dropping dropping
      rw [same] at pointer
      have sameCell := enqueue.cell_of_pointer phase holds pointer atPosition
      rw [← isCell] at sameCell
      rw [noSpin future receiver seen dropping sameCell] at isOn
      cases isOn
    · rw [resolutions, Function.update_of_ne same]
      exact invariant.spinning future receiver seen occupant dropping isOn
        pointer

/-- A batched future sets `RX_DROPPED` in the word its receiver points to. -/
theorem drop
    (invariant : StrikeInvariant N earlier state)
    (enqueue : EnqueueInvariant N task state)
    (phase : PhaseInvariant N state.queue)
    {future : Nat}
    {receiver : Receiver Value}
    (outside : state.isPolling future = false)
    (holds : state.futures future = .batched receiver)
    (notDiscarded :
      ∀ other,
        (state.queue.buffer receiver.state).rx = some other →
        state.resolutions other ≠ .discarded)
    {later : List Nat}
    (strikes :
      later =
        earlier ++
          ((state.queue.buffer receiver.state).rx.filter
            (· ≠ future)).toList)
    (queue :
      after.queue =
        state.queue.updateCell receiver.state
          (TaskRef.updateState (· ||| rxDropped)))
    (futures :
      after.futures =
        Function.update state.futures future
          (.dropping receiver (state.queue.buffer receiver.state).state))
    (polling : after.polling = state.polling)
    (enqueued : after.enqueued = state.enqueued)
    (resolutions : after.resolutions = state.resolutions) :
    StrikeInvariant N later after := by
  have enqueuers := State.enqueuers_congr enqueued
  have holdsReceiver := Future.receiver?_of_batched holds
  have atWord :
      after.queue.buffer receiver.state =
        TaskRef.updateState (· ||| rxDropped)
          (state.queue.buffer receiver.state) := by
    rw [queue]
    exact Queue.State.updateCell_self state.queue receiver.state _
  have elsewhere {cell : Nat} (differs : cell ≠ receiver.state) :
      after.queue.buffer cell = state.queue.buffer cell := by
    rw [queue]
    exact Queue.State.updateCell_of_ne state.queue _ differs
  have pointers (cell : Nat) :
      (after.queue.buffer cell).rx = (state.queue.buffer cell).rx := by
    rw [queue]
    exact EnqueueInvariant.updateCell_rx state.queue receiver.state
      (TaskRef.updateState_rx _) cell
  have mem_later (other : Nat) :
      other ∈ later ↔
        other ∈ earlier ∨
          ((state.queue.buffer receiver.state).rx = some other ∧
            other ≠ future) := by
    rw [strikes, List.mem_append, Option.mem_toList,
      Option.filter_eq_some_iff]
    simp
  constructor
  case words =>
    intro position other atPosition inWindow isPending
    rw [enqueuers] at atPosition
    rw [queue] at inWindow
    rw [resolutions] at isPending
    have pointer := enqueue.occupants position other atPosition inWindow
    by_cases here : position % N.size = receiver.state
    · rw [here] at pointer ⊢
      rw [atWord, mem_later]
      refine ⟨fun _ => ?_, fun _ => isDropped_or_rxDropped _⟩
      by_cases same : other = future
      · left
        rw [same, futures, Function.update_self]
        rfl
      · exact Or.inr (Or.inr ⟨pointer, same⟩)
    · have differs : other ≠ future := by
        intro same
        rw [same] at atPosition
        exact here (enqueue.receiver_state atPosition holdsReceiver).symm
      have notHere :
          (state.queue.buffer receiver.state).rx ≠ some other := by
        intro designates
        exact here (enqueue.cell_of_pointer phase holdsReceiver designates
          atPosition).symm
      rw [elsewhere here, futures, Function.update_of_ne differs,
        mem_later,
        invariant.words position other atPosition inWindow isPending]
      simp [notHere]
  case newWord =>
    intro index call at_ called
    rw [queue] at at_
    rw [polling] at called
    have callAt := enqueue.callAt
    have isAdding : state.queue.owner = .adding index := at_
    rw [isAdding] at callAt
    obtain ⟨sameCall, _, isCalled, _, _, pointer, _⟩ := callAt
    rw [called] at isCalled
    cases isCalled
    have differs : call.future ≠ future := by
      intro same
      rw [State.isPolling, called] at outside
      simp [same] at outside
    rw [mem_later]
    by_cases here : index = receiver.state
    · rw [here] at pointer ⊢
      rw [atWord]
      exact ⟨fun _ => Or.inr ⟨pointer, differs⟩,
        fun _ => isDropped_or_rxDropped _⟩
    · have notHere :
          (state.queue.buffer receiver.state).rx ≠ some call.future := by
        intro designates
        rcases enqueue.occupant_of_receiver phase holdsReceiver with
          ⟨position, found, atPosition, _, _, isFound⟩ |
            ⟨_, atOther, _, _⟩
        · rw [designates] at isFound
          cases isFound
          have callAt := enqueue.callAt
          rw [isAdding] at callAt
          obtain ⟨_, _, isCalled, _, _, _, _, fresh⟩ := callAt
          rw [called] at isCalled
          cases isCalled
          exact fresh (List.mem_of_getElem? atPosition)
        · rw [isAdding] at atOther
          cases atOther
          exact here rfl
      rw [elsewhere here, invariant.newWord index call isAdding called]
      simp [notHere]
  case written =>
    intro other member
    rw [enqueuers, State.isPolling, polling, queue]
    rcases (mem_later other).mp member with old | ⟨designates, _⟩
    · exact invariant.written other old
    · rcases enqueue.occupant_of_receiver phase holdsReceiver with
        ⟨position, found, atPosition, _, _, isFound⟩ |
          ⟨call, at_, called, isFound⟩
      · rw [designates] at isFound
        cases isFound
        exact Or.inl (List.mem_of_getElem? atPosition)
      · rw [designates] at isFound
        cases isFound
        right
        rw [called]
        refine ⟨by simp, ?_⟩
        change state.queue.owner.isAdding = true
        rw [at_]
        rfl
  case discarded =>
    intro other isDiscarded
    rw [resolutions] at isDiscarded
    by_cases same : other = future
    · rw [same, futures, Function.update_self]
      rfl
    · rw [futures, Function.update_of_ne same]
      exact invariant.discarded other isDiscarded
  case spinning =>
    intro other held seen occupant dropping isOn pointer
    rw [pointers] at pointer
    rw [resolutions]
    by_cases same : other = future
    · rw [same, futures, Function.update_self] at dropping
      cases dropping
      exact notDiscarded occupant pointer
    · rw [futures, Function.update_of_ne same] at dropping
      exact invariant.spinning other held seen occupant dropping isOn
        pointer

/-- Changing a word without `RX_DROPPED` leaves all flags alone. -/
theorem updateCell_flags
    (queue : Queue.State (TaskRef Task) Nat)
    (index : Nat)
    {update : TaskRef Task → TaskRef Task}
    (flag : ∀ ref, isDropped (update ref).state = isDropped ref.state)
    (cell : Nat) :
    isDropped ((queue.updateCell index update).buffer cell).state =
      isDropped (queue.buffer cell).state := by
  by_cases here : cell = index
  · rw [here, Queue.State.updateCell_self]
    exact flag _
  · rw [Queue.State.updateCell_of_ne queue update here]

/-- The accesses of a resolver that respects the other tasks. -/
theorem resolveMove
    {trace : List (State Task Value × Action Value)}
    (invariant : StrikeInvariant N (struck trace) state)
    (resolve : ResolveInvariant N state)
    (enqueue : EnqueueInvariant N task state)
    (phase : PhaseInvariant N state.queue)
    (window : state.queue.LiveInWindow N)
    {batch cell : Nat}
    {method : Method}
    {todo : List Nat}
    {value : Option Value}
    {point : ResolvePoint}
    (resolving :
      state.batches batch = .resolving method todo cell value point)
    (spares : SparesOthers trace (state, .resolve batch))
    (pending :
      ∀ future,
        (after.resolutions future).isPending = true →
        (state.resolutions future).isPending = true)
    (moved :
      ResolveMove state batch method todo cell value point after) :
    StrikeInvariant N (struck trace) after := by
  obtain ⟨_, position, future, current, resolution, _, _⟩ :=
    resolve.batches.resolving_current enqueue window resolving
  have pointers (update : Nat → Nat) (index : Nat) :
      ((state.queue.updateCell cell
          (TaskRef.updateState update)).buffer index).rx =
        (state.queue.buffer index).rx :=
    EnqueueInvariant.updateCell_rx state.queue cell
      (TaskRef.updateState_rx update) index
  have marked (update : Nat → Nat) (next : Resolution) :
      ((state.updateCell cell (TaskRef.updateState update)).mark cell
          next).resolutions =
        Function.update state.resolutions future next :=
    State.updateCell_mark_resolutions (TaskRef.updateState_rx update)
      current.pointer
  cases moved with
  | setting alive =>
      refine invariant.of_same rfl rfl (fun _ => Iff.rfl)
        (fun _ _ => rfl) (pointers _)
        (updateCell_flags state.queue cell fun ref => ?_) pending
        (fun _ => discarded_of_update (marked _ _) (by simp)) rfl
      exact isDropped_or_settingValue ref.state
  | discard dropped =>
      have isOn : isDropped (state.queue.buffer cell).state = true := by
        rw [← Bool.not_eq_false, ← and_rxDropped_eq_zero_iff]
        exact dropped
      have isPending : (state.resolutions future).isPending = true := by
        rw [resolution]
        rfl
      obtain ⟨whenStruck, whenBegun⟩ :=
        spares method todo cell value future resolving current.pointer
      have begun : (state.futures future).isDropBegun = true := by
        rw [current.isCell] at isOn
        rcases (invariant.words position future current.enqueued
            current.inWindow isPending).mp isOn with own | others
        · exact own
        · exact whenStruck others
      refine invariant.discard enqueue phase current.enqueued
        current.isCell begun (whenBegun begun) rfl rfl rfl rfl rfl
        (pointers _) (updateCell_flags state.queue cell fun ref => ?_)
        pending (marked _ _)
      exact isDropped_or_settingValue ref.state
  | @write rx designates =>
      refine invariant.of_future rfl ?_ ?_ ?_ rfl rfl rfl pending
        (fun _ =>
          discarded_of_update (State.mark_resolutions designates) (by simp))
      · rw [Future.isDropBegun_store]
        exact fun _ begun => Or.inl begun
      · rw [Future.isDropBegun_store]
        exact fun begun => begun
      · intro receiver seen holds isOn
        obtain ⟨old, held, sameWord⟩ := Future.store_dropping holds
        exact ⟨old, seen, held, isOn, sameWord⟩
  | wake designates =>
      exact invariant.of_same rfl rfl (fun _ => Iff.rfl) (fun _ _ => rfl)
        (fun _ => rfl) (fun _ => rfl) pending
        (fun _ =>
          discarded_of_update (State.mark_resolutions designates) (by simp))
        rfl
  | fetchXor =>
      refine invariant.of_same rfl rfl (fun _ => Iff.rfl)
        (fun _ _ => rfl) (pointers _)
        (updateCell_flags state.queue cell fun ref => ?_) pending
        (fun _ => discarded_of_update (marked _ _) (by simp)) rfl
      exact isDropped_xor_completed ref.state

end StrikeInvariant

theorem struck_concat
    (trace : List (State Task Value × Action Value))
    (taken : State Task Value × Action Value) :
    struck (trace ++ [taken]) = struck trace ++ (strikes taken).toList := by
  rw [struck, List.filterMap_append, struck]
  cases found : strikes taken <;> simp [found]

/-- A step that strikes no word. -/
theorem struck_of_none
    {trace : List (State Task Value × Action Value)}
    {taken : State Task Value × Action Value}
    (strikesNone : strikes taken = none) :
    struck (trace ++ [taken]) = struck trace := by
  rw [struck_concat, strikesNone]
  exact List.append_nil _

namespace StrikeInvariant

variable
    {width : PointerWidth}
    {program : Program Task Value}
    {N : BufferSize width}
    {task : Nat → Task}
    {state after : State Task Value}

/-- Every step that respects the other tasks keeps the invariant. -/
theorem move
    {trace : List (State Task Value × Action Value)}
    (invariant : StrikeInvariant N (struck trace) state)
    (resolve : ResolveInvariant N state)
    (enqueue : EnqueueInvariant N task state)
    (phase : PhaseInvariant N state.queue)
    (window : state.queue.LiveInWindow N)
    {action : Action Value}
    (spares : SparesOthers trace (state, action))
    (moved : Move program N state action after) :
    StrikeInvariant N (struck (trace ++ [(state, action)])) after := by
  have pending (future : Nat) :
      (after.resolutions future).isPending = true →
        (state.resolutions future).isPending = true :=
    resolve.isPending_of_isPending enqueue phase window moved
  have marks
      {cell : Nat}
      {update : TaskRef Task → TaskRef Task}
      (samePointer : ∀ ref, (update ref).rx = ref.rx)
      (pointer : ∃ future, (state.queue.buffer cell).rx = some future)
      (other : Nat)
      (discarded :
        ((state.updateCell cell update).mark cell .visited).resolutions
            other =
          .discarded) :
      state.resolutions other = .discarded := by
    obtain ⟨future, designates⟩ := pointer
    exact discarded_of_update
      (State.updateCell_mark_resolutions samePointer designates) (by simp)
      discarded
  cases moved with
  | owner moved =>
      rw [struck_of_none rfl]
      exact invariant.ownerMove enqueue resolve.words phase moved
  | resolve resolving moved =>
      rw [struck_of_none rfl]
      exact invariant.resolveMove resolve enqueue phase window resolving
        spares pending moved
  | call holds noCall idle =>
      rw [struck_of_none rfl]
      exact invariant.of_same rfl rfl (by simp [idle]) (by simp [idle])
        (fun _ => rfl) (fun _ => rfl) pending (fun _ => id) rfl
  | refuse called at_ | join called at_ | spawn called at_ =>
      rw [struck_of_none rfl]
      exact invariant.of_same rfl rfl (by simp [at_]) (by simp [at_])
        (fun _ => rfl) (fun _ => rfl) pending (fun _ => id) rfl
  | idlePoll _ | assign _ _ _ _ _ | invoke _ | release _ _ _ _ | retry _
  | complete _ _ =>
      rw [struck_of_none rfl]
      exact invariant.of_same rfl rfl (fun _ => Iff.rfl) (fun _ _ => rfl)
        (fun _ => rfl) (fun _ => rfl) pending (fun _ => id) rfl
  | steal _ found draining =>
      rw [struck_of_none rfl]
      obtain ⟨owner, buffer, cells⟩ :=
        (Queue.Move.frame (.steal found draining :
          Queue.Move N state.queue _ _) rfl)
      exact invariant.of_same cells rfl (fun _ => by rw [owner])
        (fun _ _ => rfl) (fun _ => by rw [buffer]) (fun _ => by rw [buffer])
        pending (fun _ => id) rfl
  | visitMap visiting | visitDrop visiting =>
      rw [struck_of_none rfl]
      obtain ⟨future, pointer, _⟩ :=
        resolve.visiting_task enqueue phase window visiting
      exact invariant.of_same rfl rfl (fun _ => Iff.rfl) (fun _ _ => rfl)
        (EnqueueInvariant.updateCell_rx state.queue _
          TaskRef.takeTaskUnchecked_rx)
        (updateCell_flags state.queue _ fun _ => rfl) pending
        (marks TaskRef.takeTaskUnchecked_rx ⟨future, pointer⟩) rfl
  | visitWith visiting =>
      rw [struck_of_none rfl]
      obtain ⟨future, pointer, _⟩ :=
        resolve.visiting_task enqueue phase window visiting
      refine invariant.of_same rfl rfl (fun _ => Iff.rfl) (fun _ _ => rfl)
        (EnqueueInvariant.updateCell_rx state.queue _ fun _ => ?_)
        (updateCell_flags state.queue _ fun _ => ?_) pending
        (marks (fun _ => ?_) ⟨future, pointer⟩) rfl
      all_goals split <;> rfl
  | ready outside holds =>
      rw [struck_of_none rfl]
      refine invariant.of_future rfl (fun _ begun => by cases begun) ?_
        (fun _ _ same => by cases same) rfl rfl rfl pending (fun _ => id)
      rw [holds]
      exact fun begun => by cases begun
  | dropUnbatched outside holds =>
      have fresh := (enqueue.unbatched _ _ holds).2
      rw [struck_of_none (by simp [strikes, holds])]
      exact invariant.of_future rfl (fun member => (fresh member).elim)
        (fun _ => rfl) (fun _ _ same => by cases same) rfl rfl rfl pending
        (fun _ => id)
  | @dropReceived future holds =>
      have woken := resolve.words.futures future
      rw [holds] at woken
      rw [struck_of_none (by simp [strikes, holds])]
      exact invariant.of_future rfl
        (fun _ _ => Or.inr (Resolution.not_isPending_of_isWoken woken))
        (fun _ => rfl) (fun _ _ same => by cases same) rfl rfl rfl pending
        (fun _ => id)
  | dropBatched outside holds =>
      rw [struck_concat]
      refine invariant.drop enqueue phase outside holds
        (fun other => spares _ other holds) ?_ rfl rfl rfl rfl rfl
      simp [strikes, holds]
  | spin holds waits =>
      rw [struck_of_none rfl]
      refine invariant.of_future rfl (fun _ _ => Or.inl ?_) (fun _ => rfl)
        ?_ rfl rfl rfl pending (fun _ => id)
      · rw [holds]
        rfl
      · intro receiver seen same _
        cases same
        exact ⟨_, _, holds, waits, rfl⟩
  | dropReturn holds clear =>
      rw [struck_of_none rfl]
      refine invariant.of_future rfl (fun _ _ => Or.inl ?_) (fun _ => rfl)
        (fun _ _ same => by cases same) rfl rfl rfl pending (fun _ => id)
      rw [holds]
      rfl

/-- The invariant rules out every interference. -/
theorem noInterference
    {earlier : List Nat}
    (invariant : StrikeInvariant N earlier state)
    (resolve : ResolveInvariant N state)
    (enqueue : EnqueueInvariant N task state)
    (phase : PhaseInvariant N state.queue)
    (window : state.queue.LiveInWindow N) :
    NoInterference state where
  discarded := invariant.discarded
  spinning := by
    intro future receiver seen dropping sawSetting isOn
    have holds := Future.receiver?_of_dropping dropping
    rcases enqueue.occupant_of_receiver phase holds with
      ⟨position, other, atPosition, inWindow, sameCell, pointer⟩ |
        ⟨_, at_, _, _⟩
    · have notDiscarded :=
        invariant.spinning future receiver seen other dropping sawSetting
          pointer
      have wordAt :=
        resolve.words.words position other atPosition inWindow
      rw [sameCell] at wordAt
      have isResolving : (state.resolutions other).isResolving = true := by
        cases stage : state.resolutions other with
        | setting | stored | woken => rfl
        | discarded => exact absurd stage notDiscarded
        | untouched | visited | set =>
            rw [stage] at wordAt
            rw [wordAt.1] at isOn
            cases isOn
      obtain ⟨batch, method, todo, cell, value, point, resolving,
          designates⟩ :=
        resolve.batches.resolving other isResolving
      obtain ⟨_, index, task, current, resolution, _, _⟩ :=
        resolve.batches.resolving_current enqueue window resolving
      have sameTask : task = other := by
        have pointers := current.pointer.symm.trans designates
        cases pointers
        rfl
      subst sameTask
      have isCell : cell = receiver.state := by
        rw [current.isCell,
          enqueue.position_unique current.enqueued atPosition, sameCell]
      subst isCell
      refine ⟨batch, method, todo, value, point, resolving, fun same => ?_⟩
      rw [resolution, same] at isResolving
      cases isResolving
    · have clear := (resolve.words.newWord _ at_).1
      rw [clear] at isOn
      cases isOn

/-- A task whose word says `RX_DROPPED` is discarded by its resolver. -/
theorem discarded_of_flag
    {trace : List (State Task Value × Action Value)}
    (invariant : StrikeInvariant N (struck trace) state)
    {batch cell position other : Nat}
    {method : Method}
    {todo : List Nat}
    {value : Option Value}
    {handle : Handle}
    (current : Current N state batch cell handle position other)
    (resolution : state.resolutions other = .visited)
    (flagged :
      (state.futures other).isDropBegun = true ∨ other ∈ struck trace)
    (moved :
      ResolveMove state batch method todo cell value .fetchOr after) :
    after.resolutions other = .discarded ∧
      after.futures = state.futures ∧
      after.batches =
        Function.update state.batches batch (.visiting method todo) ∧
      isSetting (after.queue.buffer cell).state = true := by
  have isOn : isDropped (state.queue.buffer cell).state = true := by
    rw [current.isCell]
    refine (invariant.words position other current.enqueued
      current.inWindow ?_).mpr flagged
    rw [resolution]
    rfl
  cases moved with
  | setting alive =>
      rw [(and_rxDropped_eq_zero_iff _).mp alive] at isOn
      cases isOn
  | discard _ =>
      refine ⟨?_, rfl, rfl, ?_⟩
      · have resolutions :
            ((state.updateCell cell
                (TaskRef.updateState (· ||| settingValue))).mark cell
                  .discarded).resolutions =
              Function.update state.resolutions other .discarded :=
          State.updateCell_mark_resolutions (TaskRef.updateState_rx _)
            current.pointer
        change
          ((state.updateCell cell
              (TaskRef.updateState (· ||| settingValue))).mark cell
                .discarded).resolutions other =
            _
        rw [resolutions, Function.update_self]
      · change
          isSetting
              ((state.queue.updateCell cell
                (TaskRef.updateState (· ||| settingValue))).buffer
                  cell).state =
            true
        rw [Queue.State.updateCell_self]
        exact isSetting_or_settingValue _

/-- A step after which nothing interferes respected the other tasks. -/
theorem sparesOthers
    {trace : List (State Task Value × Action Value)}
    (invariant : StrikeInvariant N (struck trace) state)
    (resolve : ResolveInvariant N state)
    (enqueue : EnqueueInvariant N task state)
    (phase : PhaseInvariant N state.queue)
    (window : state.queue.LiveInWindow N)
    {action : Action Value}
    (moved : Move program N state action after)
    (noInterference : NoInterference after) :
    SparesOthers trace (state, action) := by
  cases action with
  | drop future =>
      intro receiver other holds pointer discarded
      have holdsReceiver := Future.receiver?_of_batched holds
      have isOn :
          isSetting (state.queue.buffer receiver.state).state = true := by
        rcases enqueue.occupant_of_receiver phase holdsReceiver with
          ⟨position, found, atPosition, inWindow, sameCell, designates⟩ |
            ⟨call, at_, called, designates⟩
        · rw [pointer] at designates
          cases designates
          have wordAt :=
            resolve.words.words position other atPosition inWindow
          rw [discarded, sameCell] at wordAt
          exact wordAt.1
        · have callAt := enqueue.callAt
          rw [at_] at callAt
          obtain ⟨_, _, isCalled, _, _, _, _, fresh⟩ := callAt
          rw [called] at isCalled
          cases isCalled
          rw [pointer] at designates
          cases designates
          rw [resolve.words.notEnqueued _ fresh] at discarded
          cases discarded
      cases moved with
      | dropUnbatched _ isUnbatched =>
          rw [holds] at isUnbatched
          cases isUnbatched
      | dropReceived isReceived =>
          rw [holds] at isReceived
          cases isReceived
      | @dropBatched _ held _ isBatched =>
          have same : held = receiver := by
            rw [holds] at isBatched
            cases isBatched
            rfl
          subst same
          have stillOn :
              isSetting
                  ((state.queue.updateCell held.state
                    (TaskRef.updateState (· ||| rxDropped))).buffer
                      held.state).state =
                true := by
            rw [Queue.State.updateCell_self]
            exact (isSetting_or_rxDropped _).trans isOn
          obtain ⟨batch, method, todo, value, point, resolving, _⟩ :=
            noInterference.spinning future held _
              (Function.update_self future _ state.futures) isOn stillOn
          obtain ⟨task, designates, resolution⟩ :=
            resolve.resolving_task enqueue window resolving
          rw [pointer] at designates
          cases designates
          rw [discarded] at resolution
          cases point <;> cases resolution
  | resolve batch =>
      intro method todo cell value other resolving pointer
      obtain ⟨handle, position, task, current, resolution, _, _⟩ :=
        resolve.batches.resolving_current enqueue window resolving
      have sameTask : task = other := by
        have pointers := current.pointer.symm.trans pointer
        cases pointers
        rfl
      subst sameTask
      cases moved with
      | resolve isResolving moved =>
          rw [resolving] at isResolving
          cases isResolving
          constructor
          · intro isStruck
            obtain ⟨isDiscarded, futures, _, _⟩ :=
              invariant.discarded_of_flag current resolution
                (Or.inr isStruck) moved
            rw [← futures]
            exact noInterference.discarded task isDiscarded
          · intro begun future receiver seen dropping sameCell
            obtain ⟨_, futures, batches, isOn⟩ :=
              invariant.discarded_of_flag current resolution
                (Or.inl begun) moved
            rw [← Bool.not_eq_true]
            intro sawSetting
            rw [← futures] at dropping
            rw [← sameCell] at isOn
            obtain ⟨other, _, _, _, point, otherResolving, past⟩ :=
              noInterference.spinning future receiver seen dropping
                sawSetting isOn
            have differs : other ≠ batch := by
              intro same
              rw [same, batches, Function.update_self] at otherResolving
              cases otherResolving
            rw [batches, Function.update_of_ne differs] at otherResolving
            obtain ⟨found, designates, isAt⟩ :=
              resolve.resolving_task enqueue window otherResolving
            rw [sameCell, pointer] at designates
            cases designates
            rw [resolution] at isAt
            apply past
            cases point <;> first | rfl | cases isAt
  | _ => trivial

end StrikeInvariant

/--
On a 64-bit target and a buffer of at most 1024 cells, when each future keeps
to its own waker, the runs in which no drop interferes with another future are
exactly those whose steps spare the words of other tasks.
-/
theorem no_interference_iff_spares
    (program : Program Task Value)
    (N : BufferSize .w64)
    (small : N.size ≤ 1024)
    (task : Nat → Task)
    (trace : List (State Task Value × Action Value))
    (state : State Task Value)
    (run : Run program N task trace state)
    (ownWaker : ∀ taken ∈ trace, OwnWaker taken.1 taken.2) :
    ((∀ taken ∈ trace, NoInterference taken.1) ∧ NoInterference state) ↔
      ∀ earlier taken,
        earlier ++ [taken] <+: trace → SparesOthers earlier taken := by
  have provisos
      {state : State Task Value}
      (reachable : Reachable program N OwnWaker task state) :
      (ResolveInvariant N state ∧ EnqueueInvariant N task state) ∧
        PhaseInvariant N state.queue ∧
        state.queue.LiveInWindow N := by
    have disciplined :=
      Reachable.disciplined small (fun _ _ => id) reachable
    exact ⟨⟨Reachable.resolveInvariant_of_disciplined disciplined,
        Reachable.enqueueInvariant reachable⟩,
      Queue.Reachable.phaseInvariant reachable.queue,
      Reachable.liveInWindow_of_disciplined disciplined⟩
  let invariant
      (trace : List (State Task Value × Action Value))
      (state : State Task Value) : Prop :=
    StrikeInvariant N (struck trace) state
  have initially : invariant [] (initial task) := StrikeInvariant.initial
  refine run.holds_iff_history initially ?_ ?_ ?_ ownWaker
  · intro trace state reachable holds
    obtain ⟨⟨resolve, enqueue⟩, phase, window⟩ := provisos reachable
    exact StrikeInvariant.noInterference holds resolve enqueue phase window
  · intro trace before after action reachable holds _ spares taken
    obtain ⟨⟨resolve, enqueue⟩, phase, window⟩ := provisos reachable
    exact StrikeInvariant.move holds resolve enqueue phase window spares
      (step_move taken)
  · intro trace before after action reachable holds _ taken noInterference
    obtain ⟨⟨resolve, enqueue⟩, phase, window⟩ := provisos reachable
    exact StrikeInvariant.sparesOthers holds resolve enqueue phase window
      (step_move taken) noInterference

/-! ## A stale receiver -/

/-- A future is polled with its own waker and enqueued. -/
def enqueueTask (future accesses : Nat) : List (Action Nat) :=
  .poll future future :: (List.replicate accesses .owner ++ [.finish])

/--
The first range is resolved as far as its first task and released; the owner
goes once around the buffer and puts a task into the first cell again.  Then
the first future is dropped, and the new task is resolved.
-/
def staleReceiver : List (Action Nat) :=
  enqueueTask 0 6 ++
    (List.range' 1 7).flatMap (enqueueTask · 4) ++
    [.assign 0, .invoke 0 .resolveWithIter, .visitWith 0 7, .resolve 0,
      .resolve 0, .resolve 0, .resolve 0, .release 0] ++
    enqueueTask 8 6 ++
    (List.range' 9 55).flatMap (fun future =>
      enqueueTask future (if future % 8 = 0 then 5 else 4)) ++
    [.assign 1] ++
    enqueueTask 64 6 ++
    [.drop 0, .assign 2, .invoke 2 .map, .visit 2, .resolve 2]

/-- The value of the last future is discarded, though it is not dropped. -/
theorem staleReceiver_interferes :
    ∃ state : State Nat Nat,
      Reachable increment smallestBuffer OwnWaker id state ∧
        state.resolutions 64 = .discarded ∧
        (state.futures 64).isDropBegun = false ∧
        ¬ NoInterference state := by
  have performed :
      ((TransitionSystem.executeWhere (step increment smallestBuffer)
          OwnWaker (initial id) staleReceiver).map fun state =>
        (state.resolutions 64, (state.futures 64).isDropBegun)) =
        some (.discarded, false) := by
    decide +kernel
  obtain ⟨state, reached, values⟩ := Option.map_eq_some_iff.mp performed
  simp only [Prod.mk.injEq] at values
  obtain ⟨discarded, notBegun⟩ := values
  refine ⟨state, TransitionSystem.Reachable.start.executeWhere reached,
    discarded, notBegun, fun noInterference => ?_⟩
  rw [noInterference.discarded 64 discarded] at notBegun
  cases notBegun

/-- The first future is enqueued and dropped before it is resolved. -/
def droppedPending : List (Action Nat) :=
  enqueueFirst ++
    [.drop 0, .assign 0, .invoke 0 .map, .visit 0, .resolve 0, .spin 0]

/-- There nothing interferes exactly if the steps spare other tasks. -/
theorem no_interference_iff_spares_droppedPending :
    ∃ (trace : List (State Nat Nat × Action Nat)) (state : State Nat Nat),
      Run increment smallestBuffer id trace state ∧
        state.resolutions 0 = .discarded ∧
        (((∀ taken ∈ trace, NoInterference taken.1) ∧
            NoInterference state) ↔
          ∀ earlier taken,
            earlier ++ [taken] <+: trace → SparesOthers earlier taken) := by
  have performed :
      ((TransitionSystem.executeWhere (step increment smallestBuffer)
          OwnWaker (initial id) droppedPending).map fun state =>
        state.resolutions 0) =
        some .discarded := by
    decide +kernel
  obtain ⟨state, reached, discarded⟩ := Option.map_eq_some_iff.mp performed
  obtain ⟨trace, run, ownWaker⟩ :=
    TransitionSystem.Run.of_executeWhere .start
      (fun _ member => by cases member) reached
  exact ⟨trace, state, run, discarded,
    no_interference_iff_spares increment smallestBuffer (by decide) id
      trace state run ownWaker⟩

end StackQueue.TaskQueue
