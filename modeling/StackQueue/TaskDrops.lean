import StackQueue.TaskCompletion
import StackQueue.TaskWakers

namespace StackQueue.TaskQueue

open Queue

/-!
# Drops and the words they read

While no cell is reused before the drop of its receiver has returned, the word
that a drop reads is that of its own future's task: a drop that is about to
return knows whether its slot was set.
-/

variable {Task Value : Type}

/-- No cell is reused before the drop of its receiver returns. -/
def SparesReceivers (state : State Task Value) : Action Value → Prop
  | .owner =>
      ∀ write index future receiver seen,
        state.queue.owner = .writing write index →
        state.futures future = .dropping receiver seen →
        receiver.state ≠ index
  | .drop future =>
      ∀ receiver,
        state.futures future = .batched receiver →
        (state.queue.buffer receiver.state).rx = some future
  | _ => True

/-! ## Drops and the cells of their receivers -/

/-- The owner's steps begin no drop. -/
theorem EnqueueInvariant.dropping_progress
    {width : PointerWidth}
    {N : BufferSize width}
    {task : Nat → Task}
    {state : State Task Value}
    (enqueue : EnqueueInvariant N task state)
    {queue : Queue.State (TaskRef Task) Nat}
    (moved : OwnerMove N state.queue queue)
    {future seen : Nat}
    {receiver : Receiver Value}
    (holds : state.progress.futures future = .dropping receiver seen) :
    state.futures future = .dropping receiver seen := by
  cases moved with
  | @write _ index at_ =>
      have callAt := enqueue.callAt
      rw [at_] at callAt
      obtain ⟨call, called, _, _⟩ := callAt
      have futures :
          state.progress.futures =
            Function.update state.futures call.future
              (.batched ⟨index, none, call.waker⟩) := by
        simp [State.progress, at_, called]
      rw [futures] at holds
      by_cases same : future = call.future
      · rw [same, Function.update_self] at holds
        cases holds
      · rw [Function.update_of_ne same] at holds
        exact holds
  | add at_ | occupy at_ | enterAtBoundary at_ _ | enterInside at_ _
  | cachedFree at_ _ | cachedBusy at_ _ | loadedFree at_ _
  | loadedBusy at_ _ | replaceJoined at_ _ | replaceOpening at_ _ =>
      have futures : state.progress.futures = state.futures := by
        simp [State.progress, at_]
      rw [futures] at holds
      exact holds

/-- A future that is being dropped was enqueued. -/
theorem EnqueueInvariant.enqueued_of_dropping
    {width : PointerWidth}
    {N : BufferSize width}
    {task : Nat → Task}
    {state : State Task Value}
    (enqueue : EnqueueInvariant N task state)
    {future seen : Nat}
    {receiver : Receiver Value}
    (holds : state.futures future = .dropping receiver seen) :
    ∃ position : Nat, state.enqueuers[position]? = some future := by
  have holdsReceiver := Future.receiver?_of_dropping holds
  rcases enqueue.receivers future receiver holdsReceiver with
    ⟨position, atPosition, _⟩ | ⟨isPolling, at_⟩
  · exact ⟨position, atPosition⟩
  · have callAt := enqueue.callAt
    rw [at_] at callAt
    obtain ⟨call, _, called, isBatched, _⟩ := callAt
    have isCall : call.future = future := by
      simpa [State.isPolling, called] using isPolling
    rw [isCall, holds] at isBatched
    cases isBatched

/-- While a future is being dropped, its task's cell is not reused. -/
def OwnCells
    {width : PointerWidth}
    (N : BufferSize width)
    (state : State Task Value) :
    Prop :=
  ∀ (position future : Nat) (receiver : Receiver Value) (seen : Nat),
    state.enqueuers[position]? = some future →
    state.futures future = .dropping receiver seen →
    state.queue.InWindow N position

namespace OwnCells

variable
    {width : PointerWidth}
    {program : Program Task Value}
    {N : BufferSize width}
    {task : Nat → Task}
    {state after : State Task Value}

theorem initial :
    OwnCells N (TaskQueue.initial task : State Task Value) := by
  intro position future receiver seen atPosition
  simp [TaskQueue.initial, State.enqueuers] at atPosition

/-- A step that writes no cell and accepts no task. -/
theorem of_frame
    (ownCells : OwnCells N state)
    (cells : after.queue.cells = state.queue.cells)
    (adding :
      after.queue.owner.isAdding = true →
      state.queue.owner.isAdding = true)
    (enqueued : after.enqueued = state.enqueued)
    (dropping :
      ∀ future receiver seen,
        after.futures future = .dropping receiver seen →
        ∃ old oldSeen, state.futures future = .dropping old oldSeen) :
    OwnCells N after := by
  intro position future receiver seen atPosition holds
  rw [State.enqueuers, enqueued] at atPosition
  obtain ⟨old, oldSeen, held⟩ := dropping future receiver seen holds
  obtain ⟨near, strict⟩ := ownCells position future old oldSeen atPosition held
  rw [Queue.State.InWindow, Queue.State.accepted, cells]
  exact ⟨near, fun isAdding => strict (adding isAdding)⟩

/-- A step of one future that begins no drop. -/
theorem of_future
    (ownCells : OwnCells N state)
    {future : Nat}
    {stage : Future Task Value}
    (futures :
      after.futures = Function.update state.futures future stage)
    (dropping :
      ∀ receiver seen,
        stage = .dropping receiver seen →
        ∃ old oldSeen, state.futures future = .dropping old oldSeen)
    (cells : after.queue.cells = state.queue.cells)
    (adding :
      after.queue.owner.isAdding = true →
      state.queue.owner.isAdding = true)
    (enqueued : after.enqueued = state.enqueued) :
    OwnCells N after := by
  refine ownCells.of_frame cells adding enqueued ?_
  intro other receiver seen holds
  by_cases same : other = future
  · rw [same] at holds ⊢
    rw [futures, Function.update_self] at holds
    exact dropping receiver seen holds
  · rw [futures, Function.update_of_ne same] at holds
    exact ⟨receiver, seen, holds⟩

/-- A drop begins while the cell still points to its future. -/
theorem drop
    (ownCells : OwnCells N state)
    (enqueue : EnqueueInvariant N task state)
    (phase : PhaseInvariant N state.queue)
    {future : Nat}
    {receiver : Receiver Value}
    {stage : Future Task Value}
    (holds : state.futures future = .batched receiver)
    (pointer : (state.queue.buffer receiver.state).rx = some future)
    (futures :
      after.futures = Function.update state.futures future stage)
    (cells : after.queue.cells = state.queue.cells)
    (owner : after.queue.owner = state.queue.owner)
    (enqueued : after.enqueued = state.enqueued) :
    OwnCells N after := by
  intro position other otherReceiver seen atPosition dropping
  rw [State.enqueuers, enqueued] at atPosition
  rw [Queue.State.InWindow, Queue.State.accepted, cells, owner]
  by_cases same : other = future
  · rw [same] at atPosition
    have holdsReceiver := Future.receiver?_of_batched holds
    have isCell := enqueue.receiver_state atPosition holdsReceiver
    rw [isCell] at pointer
    exact enqueue.inWindow_of_pointer phase atPosition pointer
  · rw [futures, Function.update_of_ne same] at dropping
    exact ownCells position other otherReceiver seen atPosition dropping

/-- The owner writes to a cell that no drop has to do with. -/
theorem write
    (ownCells : OwnCells N state)
    (enqueue : EnqueueInvariant N task state)
    (phase : PhaseInvariant N state.queue)
    {write : TaskRef Task → TaskRef Task}
    {index : Nat}
    (at_ : state.queue.owner = .writing write index)
    (spared :
      ∀ future receiver seen,
        state.futures future = .dropping receiver seen →
        receiver.state ≠ index)
    (dropping :
      ∀ future receiver seen,
        after.futures future = .dropping receiver seen →
        state.futures future = .dropping receiver seen)
    (cells : after.queue.cells = state.queue.cells)
    (enqueued : after.enqueued = state.enqueued) :
    OwnCells N after := by
  intro position future receiver seen atPosition holds
  rw [State.enqueuers, enqueued] at atPosition
  have held := dropping future receiver seen holds
  have holdsReceiver := Future.receiver?_of_dropping held
  obtain ⟨near, _⟩ := ownCells position future receiver seen atPosition held
  have isNext := phase.owner
  rw [at_] at isNext
  have strict : state.queue.accepted < position + N.size := by
    refine Nat.lt_of_le_of_ne near fun atEnd => ?_
    apply spared future receiver seen held
    rw [enqueue.receiver_state atPosition holdsReceiver, isNext.1, atEnd,
      Nat.add_mod_right]
  rw [Queue.State.InWindow, Queue.State.accepted, cells]
  exact ⟨near, fun _ => strict⟩

/-- The `fetch_add` accepts a task into the cell that was written last. -/
theorem add
    (ownCells : OwnCells N state)
    {index baseSlot : Nat}
    {entry : Nat × Task}
    (at_ : state.queue.owner = .adding index)
    (cells : after.queue.cells = state.queue.cells ++ [index])
    (owner : after.queue.owner = .replacing index baseSlot)
    (length : state.enqueuers.length = state.queue.accepted)
    (futures : after.futures = state.futures)
    (enqueued : after.enqueued = state.enqueued ++ [entry]) :
    OwnCells N after := by
  have accepted : after.queue.accepted = state.queue.accepted + 1 := by
    simp [Queue.State.accepted, cells]
  have enqueuers := State.enqueuers_concat enqueued
  intro position future receiver seen atPosition holds
  rw [enqueuers] at atPosition
  rw [futures] at holds
  have near : after.queue.accepted ≤ position + N.size := by
    rw [accepted]
    rcases ListUpdate.getElem?_concat_cases atPosition with
      earlier | ⟨isLast, _⟩
    · have inWindow := ownCells position future receiver seen earlier holds
      exact inWindow.2 (by rw [at_]; rfl)
    · have := N.size_pos
      omega
  refine ⟨near, fun adding => ?_⟩
  rw [owner] at adding
  cases adding

/-- The owner's steps keep the cells of the drops in progress. -/
theorem ownerMove
    (ownCells : OwnCells N state)
    (enqueue : EnqueueInvariant N task state)
    (phase : PhaseInvariant N state.queue)
    (spares : SparesReceivers state .owner)
    {queue : Queue.State (TaskRef Task) Nat}
    (moved : OwnerMove N state.queue queue) :
    OwnCells N { state.progress with queue := queue } := by
  have dropping (future : Nat) (receiver : Receiver Value) (seen : Nat) :
      state.progress.futures future = .dropping receiver seen →
        state.futures future = .dropping receiver seen :=
    enqueue.dropping_progress moved
  cases moved with
  | write at_ =>
      exact ownCells.write enqueue phase at_
        (fun future receiver seen => spares _ _ future receiver seen at_)
        dropping rfl (by simp [State.progress, at_])
  | add at_ =>
      have callAt := enqueue.callAt
      rw [at_] at callAt
      obtain ⟨call, _, called, _⟩ := callAt
      have enqueued :
          state.progress.enqueued =
            state.enqueued ++ [(call.future, call.task)] := by
        simp [State.progress, at_, called]
      refine ownCells.add at_ rfl rfl ?_ (by simp [State.progress, at_])
        enqueued
      exact enqueue.length_enqueuers
  | occupy at_ | enterAtBoundary at_ _ | enterInside at_ _
  | cachedFree at_ _ | cachedBusy at_ _ | loadedFree at_ _
  | loadedBusy at_ _ | replaceJoined at_ _ | replaceOpening at_ _ =>
      exact ownCells.of_frame rfl (fun adding => by cases adding)
        (by simp [State.progress, at_])
        fun future receiver seen holds =>
          ⟨receiver, seen, dropping future receiver seen holds⟩

/-- Every step that spares the receivers keeps their cells. -/
theorem move
    (ownCells : OwnCells N state)
    (enqueue : EnqueueInvariant N task state)
    (phase : PhaseInvariant N state.queue)
    {action : Action Value}
    (spares : SparesReceivers state action)
    (moved : Move program N state action after) :
    OwnCells N after := by
  cases moved with
  | owner moved =>
      exact ownCells.ownerMove enqueue phase spares moved
  | call _ _ _ | refuse _ _ | join _ _ | spawn _ _ =>
      exact ownCells.of_frame rfl (fun adding => by cases adding) rfl
        (fun _ receiver seen holds => ⟨receiver, seen, holds⟩)
  | idlePoll _ | assign _ _ _ _ _ | invoke _ | visitMap _ | visitDrop _
  | visitWith _ | release _ _ _ _ | retry _ | complete _ _ =>
      exact ownCells.of_frame rfl id rfl
        (fun _ receiver seen holds => ⟨receiver, seen, holds⟩)
  | resolve _ moved =>
      cases moved with
      | setting _ | discard _ | wake _ | fetchXor =>
          exact ownCells.of_frame rfl id rfl
            (fun _ receiver seen holds => ⟨receiver, seen, holds⟩)
      | write _ =>
          refine ownCells.of_future rfl ?_ rfl id rfl
          intro _ seen holds
          obtain ⟨old, held, _⟩ := Future.store_dropping holds
          exact ⟨old, seen, held⟩
  | steal _ found draining =>
      obtain ⟨owner, _, cells⟩ :=
        (Queue.Move.frame (.steal found draining :
          Queue.Move N state.queue _ _) rfl)
      refine ownCells.of_frame cells ?_ rfl
        (fun _ receiver seen holds => ⟨receiver, seen, holds⟩)
      intro adding
      rw [← owner]
      exact adding
  | ready _ _ | dropUnbatched _ _ | dropReceived _ | dropReturn _ _ =>
      exact ownCells.of_future rfl (fun _ _ same => by cases same) rfl id
        rfl
  | dropBatched outside holds =>
      exact ownCells.drop enqueue phase holds (spares _ holds) rfl rfl rfl
        rfl
  | spin holds waits =>
      exact ownCells.of_future rfl (fun _ _ _ => ⟨_, _, holds⟩) rfl id rfl

end OwnCells

/-! ## What a drop has seen -/

/-- Unless it says `SETTING_VALUE`, a word says whether the slot is set. -/
theorem WordAt.isSet_eq
    {word : Nat}
    {dropBegun : Bool}
    {resolution : Resolution}
    (wordAt : WordAt word dropBegun resolution)
    (clear : isSetting word = false) :
    isSet word = resolution.isStored := by
  cases resolution with
  | untouched | visited =>
      exact wordAt.2.1
  | setting | stored | woken | discarded =>
      rw [wordAt.1] at clear
      cases clear
  | set =>
      exact wordAt.2

/-- A drop that is about to return has seen whether the slot is set. -/
def SeenWords (state : State Task Value) : Prop :=
  ∀ future receiver seen,
    state.futures future = .dropping receiver seen →
    isSetting seen = false →
    isSet seen = (state.resolutions future).isStored

namespace SeenWords

variable
    {width : PointerWidth}
    {program : Program Task Value}
    {N : BufferSize width}
    {task : Nat → Task}
    {state after : State Task Value}

theorem initial :
    SeenWords (TaskQueue.initial task : State Task Value) := by
  intro future receiver seen holds
  cases holds

/-- A word that was not reused tells about the receiver's own task. -/
theorem word_of_receiver
    (resolve : ResolveInvariant N state)
    {position future : Nat}
    {receiver : Receiver Value}
    (enqueue : EnqueueInvariant N task state)
    (atPosition : state.enqueuers[position]? = some future)
    (inWindow : state.queue.InWindow N position)
    (holds : (state.futures future).receiver? = some receiver)
    (clear :
      isSetting (state.queue.buffer receiver.state).state = false) :
    isSet (state.queue.buffer receiver.state).state =
      (state.resolutions future).isStored := by
  have wordAt := resolve.words.words position future atPosition inWindow
  rw [← enqueue.receiver_state atPosition holds] at wordAt
  exact wordAt.isSet_eq clear

/-- The slot of a receiver whose drop is about to return stays as it is. -/
theorem isStored_kept
    (resolve : ResolveInvariant N state)
    (enqueue : EnqueueInvariant N task state)
    (phase : PhaseInvariant N state.queue)
    (window : state.queue.LiveInWindow N)
    {action : Action Value}
    (moved : Move program N state action after)
    {future seen : Nat}
    {receiver : Receiver Value}
    (holds : state.futures future = .dropping receiver seen)
    (clear : isSetting seen = false) :
    (after.resolutions future).isStored =
      (state.resolutions future).isStored := by
  rcases resolve.advances enqueue phase window moved with
    same | ⟨marked, next, advances, resolutions⟩
  · rw [same]
  · by_cases here : future = marked
    · have futureAt := resolve.words.futures future
      rw [holds] at futureAt
      rw [← here] at advances resolutions
      rw [resolutions, Function.update_self]
      generalize state.resolutions future = before at advances futureAt
      cases advances with
      | write =>
          rw [futureAt rfl] at clear
          cases clear
      | visit | fetchOr | discard | wake | fetchXor =>
          rfl
    · rw [resolutions, Function.update_of_ne here]

/-- A step in which no drop reads its word. -/
theorem of_frame
    (seenWords : SeenWords state)
    (kept :
      ∀ future receiver seen,
        state.futures future = .dropping receiver seen →
        isSetting seen = false →
        (after.resolutions future).isStored =
          (state.resolutions future).isStored)
    (dropping :
      ∀ future receiver seen,
        after.futures future = .dropping receiver seen →
        ∃ old, state.futures future = .dropping old seen) :
    SeenWords after := by
  intro future receiver seen holds clear
  obtain ⟨old, held⟩ := dropping future receiver seen holds
  rw [kept future old seen held clear]
  exact seenWords future old seen held clear

/-- A step of one future, which may read its word. -/
theorem of_future
    (seenWords : SeenWords state)
    {future : Nat}
    {stage : Future Task Value}
    (futures :
      after.futures = Function.update state.futures future stage)
    (resolutions : after.resolutions = state.resolutions)
    (sees :
      ∀ receiver seen,
        stage = .dropping receiver seen →
        isSetting seen = false →
        isSet seen = (state.resolutions future).isStored) :
    SeenWords after := by
  intro other receiver seen holds clear
  rw [resolutions]
  by_cases same : other = future
  · rw [same] at holds ⊢
    rw [futures, Function.update_self] at holds
    exact sees receiver seen holds clear
  · rw [futures, Function.update_of_ne same] at holds
    exact seenWords other receiver seen holds clear

/-- Every step keeps what the drops have seen. -/
theorem move
    (seenWords : SeenWords state)
    (resolve : ResolveInvariant N state)
    (enqueue : EnqueueInvariant N task state)
    (phase : PhaseInvariant N state.queue)
    (window : state.queue.LiveInWindow N)
    (ownCells : OwnCells N state)
    {action : Action Value}
    (spares : SparesReceivers state action)
    (moved : Move program N state action after) :
    SeenWords after := by
  have kept (future : Nat) (receiver : Receiver Value) (seen : Nat) :
      state.futures future = .dropping receiver seen →
        isSetting seen = false →
        (after.resolutions future).isStored =
          (state.resolutions future).isStored :=
    isStored_kept resolve enqueue phase window moved
  cases moved with
  | call _ _ _ | idlePoll _ | refuse _ _ | join _ _ | spawn _ _
  | assign _ _ _ _ _ | invoke _ | visitMap _ | visitDrop _ | visitWith _
  | release _ _ _ _ | retry _ | steal _ _ _ | complete _ _ =>
      exact seenWords.of_frame kept fun _ receiver _ holds =>
        ⟨receiver, holds⟩
  | owner moved =>
      exact seenWords.of_frame kept fun _ receiver _ holds =>
        ⟨receiver, enqueue.dropping_progress moved holds⟩
  | resolve _ moved =>
      cases moved with
      | setting _ | discard _ | wake _ | fetchXor =>
          exact seenWords.of_frame kept fun _ receiver _ holds =>
            ⟨receiver, holds⟩
      | @write rx pointer =>
          refine seenWords.of_frame kept fun future receiver seen holds => ?_
          simp only [State.setBatch, State.setFuture] at holds
          by_cases same : future = rx
          · rw [same, Function.update_self] at holds
            rw [same]
            obtain ⟨old, held, _⟩ := Future.store_dropping holds
            exact ⟨old, held⟩
          · rw [Function.update_of_ne same] at holds
            exact ⟨receiver, holds⟩
  | ready _ _ | dropUnbatched _ _ | dropReceived _ | dropReturn _ _ =>
      exact seenWords.of_future rfl rfl fun _ _ same => by cases same
  | @dropBatched future receiver outside holds =>
      refine seenWords.of_future rfl rfl fun other seen same clear => ?_
      cases same
      have holdsReceiver := Future.receiver?_of_batched holds
      rcases enqueue.receivers future receiver holdsReceiver with
        ⟨position, atPosition, isCell⟩ | ⟨isPolling, _⟩
      · have pointer := spares receiver holds
        rw [isCell] at pointer
        exact word_of_receiver resolve enqueue atPosition
          (enqueue.inWindow_of_pointer phase atPosition pointer)
          holdsReceiver clear
      · rw [outside] at isPolling
        cases isPolling
  | @spin future _ receiver holds waits =>
      refine seenWords.of_future rfl rfl fun other seen same clear => ?_
      cases same
      have holdsReceiver := Future.receiver?_of_dropping holds
      obtain ⟨position, atPosition⟩ := enqueue.enqueued_of_dropping holds
      exact word_of_receiver resolve enqueue atPosition
        (ownCells position future receiver _ atPosition holds)
        holdsReceiver clear

end SeenWords

/-! ## Orderly runs -/

/-- The proviso on reuse, tested on the futures that were enqueued. -/
def sparesReceivers (state : State Task Value) : Action Value → Bool
  | .owner =>
      state.enqueuers.all fun future =>
        !(state.futures future).isDropBegun
  | .drop future =>
      match state.futures future with
      | .batched receiver =>
          (state.queue.buffer receiver.state).rx = some future
      | _ => true
  | _ => true

theorem SparesReceivers.of_test
    {width : PointerWidth}
    {N : BufferSize width}
    {task : Nat → Task}
    {state : State Task Value}
    (enqueue : EnqueueInvariant N task state)
    {action : Action Value}
    (tested : sparesReceivers state action = true) :
    SparesReceivers state action := by
  cases action with
  | owner =>
      intro write index future receiver seen _ holds
      obtain ⟨position, atPosition⟩ := enqueue.enqueued_of_dropping holds
      have notBegun :=
        List.all_eq_true.mp tested future
          (List.mem_of_getElem? atPosition)
      rw [holds] at notBegun
      cases notBegun
  | drop future =>
      intro receiver holds
      simp only [sparesReceivers, holds] at tested
      exact of_decide_eq_true tested
  | _ => trivial

/-- Polls and drops as the accounting assumes them. -/
def Orderly
    (state : State Task Value)
    (action : Action Value) :
    Prop :=
  OwnWaker state action ∧ sparesReceivers state action = true

instance
    (state : State Task Value)
    (action : Action Value) :
    Decidable (Orderly state action) :=
  inferInstanceAs
    (Decidable
      (OwnWaker state action ∧ sparesReceivers state action = true))

/-- On a small buffer, orderly runs are those the accounting is about. -/
theorem Orderly.provisos
    {program : Program Task Value}
    {N : BufferSize .w64}
    (small : N.size ≤ 1024)
    {task : Nat → Task}
    {state : State Task Value}
    {action : Action Value}
    (reachable : Reachable program N Orderly task state)
    (orderly : Orderly state action) :
    WritesFree N state action ∧
      PollsWoken state action ∧
      SparesReceivers state action := by
  have disciplined :=
    Reachable.disciplined small (fun _ _ => And.left) reachable
  have wakers := Reachable.wakerInvariant (fun _ _ => And.left) disciplined
  exact ⟨Reachable.writesFree_of_small small reachable action,
    wakers.pollsWoken orderly.1,
    SparesReceivers.of_test (Reachable.enqueueInvariant reachable)
      orderly.2⟩

end StackQueue.TaskQueue
