import StackQueue.BatchLog
import StackQueue.QueueAdmission
import StackQueue.RangeHolders

namespace StackQueue.RangeTasks

open Queue IntervalChain

/-!
# A queue is an atomic log of batches

A push has its effect at its `fetch_add`, and bounding a range at its
`fetch_xor`.  `State.log` reads the log off a state, whatever the owner and the
holders are in the middle of; each step performs at most one operation of it,
and callers are told what they would be told if the operations were atomic.
-/

variable {width : PointerWidth} {Task : Type}

/-- The runs of a queue and the code that uses it. -/
abbrev Run
    (N : BufferSize width)
    (needsDrop : Bool)
    (trace : List (State Task × Action Task))
    (state : State Task) :
    Prop :=
  TransitionSystem.Run (step N needsDrop) initial trace state

namespace State

/-- The tasks of the range that is not bounded. -/
def unboundedTasks (state : State Task) : Option (List Task) :=
  ((state.queue.handles.filter Handle.isUnbounded).map fun handle =>
    state.pushed.drop handle.first).head?

/-- The task of a range whose handle the owner is still creating. -/
def openingTasks (state : State Task) : Option (List Task) :=
  if state.queue.isOpening then
    some (state.pushed.drop (state.queue.accepted - 1))
  else
    none

/-- The batches of the bounded ranges, and of the one that is not. -/
def log (state : State Task) : BatchLog.Log Task where
  closed :=
    (state.queue.handles.filter fun handle => !handle.isUnbounded).map
      fun handle => slice state.pushed ⟨handle.first, handle.last⟩
  current := state.unboundedTasks.or state.openingTasks

/-- The task of an accepted push that returns, and the range it opened. -/
def returning (state : State Task) : List (Task × Option Nat) :=
  match state.queue.owner with
  | .returning .joined =>
      state.call.toList.map fun task => (task, none)
  | .returning (.opened batch) =>
      state.call.toList.map fun task => (task, some batch)
  | _ => []

/-- What an accepted push in progress is going to return. -/
def inFlight (state : State Task) : List (Task × Option Nat) :=
  match state.queue.owner with
  | .replacing _ _ | .occupying _ _ =>
      state.call.toList.map fun task =>
        (task,
          if state.queue.isOpening then
            some state.queue.handles.length
          else
            none)
  | _ => state.returning

end State

/-! ## What a run shows -/

/-- The range that the action bounds. -/
def Action.bounds? : Action Task → Option Nat
  | .intoBounded batch | .dropUnbounded batch => some batch
  | _ => none

/-- The operation that has its effect at a step. -/
def operation?
    (taken : State Task × Action Task) :
    Option (BatchLog.Operation Task) :=
  match taken.2 with
  | .owner => taken.1.accepting.head?.map .push
  | action => action.bounds?.map fun _ => .close

/-- The push that returns at a step, unless it was refused. -/
def returned?
    (taken : State Task × Action Task) :
    Option (Task × Option Nat) :=
  match taken.2 with
  | .finish _ => taken.1.returning.head?
  | _ => none

/-- A range that is bounded, and what its cells hold then. -/
def bounded?
    (N : BufferSize width)
    (needsDrop : Bool)
    (taken : State Task × Action Task) :
    Option (Nat × List (Option Task)) :=
  taken.2.bounds?.bind fun batch =>
    (step N needsDrop taken.1 taken.2).bind fun after =>
      (after.queue.handles[batch]?.bind Handle.range?).map fun range =>
        (batch, (taskIndices N range).map after.queue.buffer)

/-- Performed one by one, the operations tell what the callers were told. -/
structure Linearized
    (N : BufferSize width)
    (needsDrop : Bool)
    (trace : List (State Task × Action Task))
    (state : State Task)
    (events : List (BatchLog.Event Task)) : Prop where
  performed :
    BatchLog.Log.empty.performAll (trace.filterMap operation?) =
      some (state.log, events)
  /-- The push in progress may have had its effect before it returns. -/
  pushes :
    events.filterMap BatchLog.Event.pushed? =
      trace.filterMap returned? ++ state.inFlight
  bounds :
    trace.filterMap (bounded? N needsDrop) =
      (events.filterMap BatchLog.Event.closed?).map fun told =>
        (told.1, told.2.map some)

/-! ## The log of a state -/

section Logs

variable
    {N : BufferSize width}
    {needsDrop : Bool}
    {state after : State Task}

/-- The log depends on the handles and the accepted tasks only. -/
theorem log_of_same
    (handles : after.queue.handles = state.queue.handles)
    (pushed : after.pushed = state.pushed)
    (opening : after.openingTasks = state.openingTasks) :
    after.log = state.log := by
  simp only [State.log, State.unboundedTasks, handles, pushed, opening]

/-- Taking a bounded range further towards release does not change it. -/
theorem log_of_release
    {batch : Nat}
    {old : Handle}
    {stage : Stage}
    (found : state.queue.handles[batch]? = some old)
    (wasBounded : old.isUnbounded = false)
    (notUnbounded : stage ≠ .unbounded)
    (handles :
      after.queue.handles =
        state.queue.handles.set batch { old with stage := stage })
    (pushed : after.pushed = state.pushed)
    (opening : after.openingTasks = state.openingTasks) :
    after.log = state.log := by
  have bounded :
      Handle.isUnbounded { old with stage := stage } = false := by
    simp [Handle.isUnbounded, notUnbounded]
  have unbounded : after.unboundedTasks = state.unboundedTasks := by
    rw [State.unboundedTasks, handles, pushed, State.unboundedTasks,
      ListUpdate.filter_map_set_of_same found
        (bounded.trans wasBounded.symm)]
    exact fun _ => rfl
  have closed : after.log.closed = state.log.closed := by
    rw [State.log, handles, pushed, State.log,
      ListUpdate.filter_map_set_of_same found]
    · rw [bounded, wasBounded]
    · exact fun _ => rfl
  rw [State.log, unbounded, opening]
  exact congrArg (BatchLog.Log.mk · _) closed

/-- The unbounded range is the last one, and all others are bounded. -/
theorem filter_of_concat
    {handles earlier : List Handle}
    {last : Handle}
    (shape : handles = earlier ++ [last])
    (unbounded : last.isUnbounded = true)
    (bounded : earlier.any Handle.isUnbounded = false) :
    handles.filter Handle.isUnbounded = [last] ∧
      (handles.filter fun handle => !handle.isUnbounded) = earlier := by
  have each :
      ∀ handle ∈ earlier, handle.isUnbounded = false := by
    simpa [List.any_eq_false] using bounded
  subst shape
  constructor
  · rw [List.filter_append, List.filter_eq_nil_iff.mpr (by simpa using each)]
    simp [unbounded]
  · rw [List.filter_append, List.filter_eq_self.mpr (by simpa using each)]
    simp [unbounded]

theorem filter_of_bounded
    {handles : List Handle}
    (bounded : handles.any Handle.isUnbounded = false) :
    handles.filter Handle.isUnbounded = [] ∧
      (handles.filter fun handle => !handle.isUnbounded) = handles := by
  have each :
      ∀ handle ∈ handles, handle.isUnbounded = false := by
    simpa [List.any_eq_false] using bounded
  exact ⟨List.filter_eq_nil_iff.mpr (by simpa using each),
    List.filter_eq_self.mpr (by simpa using each)⟩

/-- While a range is unbounded, its tasks are the current batch. -/
theorem log_of_unbounded
    (phase : PhaseInvariant N state.queue)
    (unbounded : state.queue.hasUnbounded = true) :
    ∃ (earlier : List Handle) (last : Handle),
      state.queue.handles = earlier ++ [last] ∧
        last.isUnbounded = true ∧
        earlier.any Handle.isUnbounded = false ∧
        state.log =
          ⟨earlier.map fun handle =>
              slice state.pushed ⟨handle.first, handle.last⟩,
            some (state.pushed.drop last.first)⟩ := by
  obtain ⟨earlier, last, shape, isUnbounded, bounded⟩ :=
    exists_concat_of_unbounded phase.onlyLast unbounded
  obtain ⟨isLast, areEarlier⟩ := filter_of_concat shape isUnbounded bounded
  refine ⟨earlier, last, shape, isUnbounded, bounded, ?_⟩
  rw [State.log, State.unboundedTasks, isLast, areEarlier]
  rfl

/-- Otherwise it is that of the range being opened, if there is one. -/
theorem log_of_bounded
    (bounded : state.queue.hasUnbounded = false) :
    state.log =
      ⟨state.queue.handles.map fun handle =>
          slice state.pushed ⟨handle.first, handle.last⟩,
        state.openingTasks⟩ := by
  obtain ⟨isNil, areAll⟩ := filter_of_bounded bounded
  rw [State.log, State.unboundedTasks, isNil, areAll]
  rfl

/-- A range is being opened only while none is unbounded. -/
theorem not_opening_of_unbounded
    (phase : PhaseInvariant N state.queue)
    (unbounded : state.queue.hasUnbounded = true) :
    state.queue.isOpening = false := by
  have owner := phase.owner
  rw [unbounded] at owner
  unfold Queue.State.isOpening
  split
  · rename_i index baseSlot at_
    rw [at_] at owner
    obtain ⟨_, basePhase, ownPhase, _, _, base, slot, _, _, opens⟩ := owner
    rw [base, slot, phaseOf_encodeSlot, phaseOf_encodeSlot]
    simp only [decide_eq_false_iff_not, not_not]
    by_contra differ
    cases (opens differ).2
  · rename_i index baseSlot at_
    rw [at_] at owner
    obtain ⟨_, _, _, _, _, _, _, isFalse, _⟩ := owner
    cases isFalse
  · rfl

/-- A range that was being opened becomes the unbounded one. -/
theorem log_of_occupy
    (phase : PhaseInvariant N state.queue)
    {index baseSlot : Nat}
    (at_ : state.queue.owner = .occupying index baseSlot)
    {new : Handle}
    (handles : after.queue.handles = state.queue.handles ++ [new])
    (unbounded : new.stage = .unbounded)
    (first : new.first = state.queue.accepted - 1)
    (pushed : after.pushed = state.pushed) :
    after.log = state.log := by
  have owner := phase.owner
  rw [at_] at owner
  obtain ⟨_, _, _, _, _, _, _, bounded, _⟩ := owner
  have isUnbounded : new.isUnbounded = true := by
    simp [Handle.isUnbounded, unbounded]
  obtain ⟨isLast, areEarlier⟩ :=
    filter_of_concat handles isUnbounded bounded
  have opening :
      state.openingTasks = some (state.pushed.drop new.first) := by
    simp [State.openingTasks, Queue.State.isOpening, at_, first]
  rw [log_of_bounded bounded, opening, State.log, State.unboundedTasks,
    isLast, areEarlier, pushed]
  rfl

/-- Bounded ranges do not depend on tasks that are accepted later. -/
theorem slices_append
    (phase : PhaseInvariant N state.queue)
    (count : state.pushed.length = state.queue.accepted)
    {handles : List Handle}
    (among : ∀ handle ∈ handles, handle ∈ state.queue.handles)
    (bounded : handles.any Handle.isUnbounded = false)
    (newest : List Task) :
    (handles.map fun handle =>
        slice (state.pushed ++ newest) ⟨handle.first, handle.last⟩) =
      handles.map fun handle =>
        slice state.pushed ⟨handle.first, handle.last⟩ := by
  refine List.map_congr_left fun handle member => slice_append ?_ newest
  rw [count]
  apply (phase.bounded_positions (among handle member) _).2
  simpa using List.any_eq_false.mp bounded handle member

/-! ## The operations -/

/-- At its `fetch_add` a push appends its task to the current batch. -/
theorem perform_push
    (phase : PhaseInvariant N state.queue)
    (count : state.pushed.length = state.queue.accepted)
    {task : Task}
    (accepting : state.accepting = [task])
    {index : Nat}
    (at_ : state.queue.owner = .adding index)
    (pushed : after.pushed = state.pushed ++ state.accepting)
    (handles : after.queue.handles = state.queue.handles)
    (accepted : after.queue.accepted = state.queue.accepted + 1)
    (opening :
      after.queue.isOpening =
        decide (phaseOf state.queue.innerSlot ≠ phaseOf state.queue.slot)) :
    state.log.perform (.push task) =
      some (after.log,
        .pushed task
          (if after.queue.isOpening then
            some state.queue.handles.length
          else
            none)) := by
  have owner := phase.owner
  rw [at_] at owner
  obtain ⟨_, ownPhase, slot, parity⟩ := owner
  rw [slot, phaseOf_encodeSlot] at opening
  rw [accepting] at pushed
  cases unbounded : state.queue.hasUnbounded with
  | true =>
      have joins : after.queue.isOpening = false := by
        rw [opening, parity.mp unbounded]
        simp
      obtain ⟨earlier, last, shape, isUnbounded, bounded, log⟩ :=
        log_of_unbounded phase unbounded
      obtain ⟨isLast, areEarlier⟩ :=
        filter_of_concat shape isUnbounded bounded
      have begun : last.first ≤ state.pushed.length := by
        rw [count]
        apply Nat.le_of_lt
        apply Nat.lt_of_lt_of_le _ phase.covered_le_accepted
        apply phase.first_lt_covered
        simp [shape]
      have logAfter :
          after.log =
            ⟨earlier.map fun handle =>
                slice state.pushed ⟨handle.first, handle.last⟩,
              some (state.pushed.drop last.first ++ [task])⟩ := by
        rw [State.log, State.unboundedTasks, handles, pushed, isLast,
          areEarlier,
          slices_append phase count (by simp +contextual [shape]) bounded,
          List.map_singleton, List.drop_append_of_le_length begun]
        rfl
      rw [log, logAfter, joins]
      rfl
  | false =>
      have opens : after.queue.isOpening = true := by
        rw [opening]
        rw [unbounded] at parity
        simpa using parity
      have notYet : state.openingTasks = none := by
        simp [State.openingTasks, Queue.State.isOpening, at_]
      have logAfter :
          after.log =
            ⟨state.queue.handles.map fun handle =>
                slice state.pushed ⟨handle.first, handle.last⟩,
              some [task]⟩ := by
        have newest : after.openingTasks = some [task] := by
          simp [State.openingTasks, opens, pushed, accepted, ← count]
        have stillBounded : after.queue.hasUnbounded = false := by
          rw [Queue.State.hasUnbounded, handles]
          exact unbounded
        rw [log_of_bounded stillBounded, newest, handles, pushed,
          slices_append phase count (fun _ => id) unbounded]
      rw [log_of_bounded unbounded, logAfter, notYet, opens]
      simp [BatchLog.Log.perform]

/-- At its `fetch_xor` bounding a range closes the current batch. -/
theorem perform_close
    (phase : PhaseInvariant N state.queue)
    (count : state.pushed.length = state.queue.accepted)
    {batch : Nat}
    {handle : Handle}
    (found : state.queue.handles[batch]? = some handle)
    (stage : handle.stage = .unbounded)
    (queue : after.queue = Queue.setBounds width state.queue batch handle)
    (pushed : after.pushed = state.pushed) :
    state.log.perform .close =
      some (after.log,
        .closed batch (state.pushed.drop handle.first)) := by
  have isUnbounded : handle.isUnbounded = true := by
    simp [Handle.isUnbounded, stage]
  have unbounded : state.queue.hasUnbounded = true :=
    List.any_eq_true.mpr ⟨handle, List.mem_of_getElem? found, isUnbounded⟩
  obtain ⟨earlier, last, shape, _, _, log⟩ :=
    log_of_unbounded phase unbounded
  have atEnd := phase.onlyLast batch handle found isUnbounded
  have isBatch : batch = earlier.length := by
    rw [shape, List.length_append, List.length_singleton] at atEnd
    exact Nat.succ.inj atEnd
  have isLast : handle = last := by
    rw [shape, isBatch, List.getElem?_concat_length] at found
    exact (Option.some.inj found).symm
  subst isLast
  have bounded : after.queue.hasUnbounded = false := by
    rw [queue]
    exact any_unbounded_set phase.onlyLast found isUnbounded rfl
  have notOpening : after.openingTasks = none := by
    have same : after.queue.isOpening = state.queue.isOpening := by
      rw [queue]
      rfl
    simp [State.openingTasks, same, not_opening_of_unbounded phase unbounded]
  have handles :
      (after.queue.handles.map fun other =>
          slice after.pushed ⟨other.first, other.last⟩) =
        (earlier.map fun other =>
          slice state.pushed ⟨other.first, other.last⟩) ++
          [state.pushed.drop handle.first] := by
    rw [queue, pushed]
    change (state.queue.handles.set batch _).map _ = _
    rw [shape, isBatch, List.set_append_right _ _ (Nat.le_refl _)]
    simp [slice, ← count]
  rw [log, log_of_bounded bounded, notOpening, handles, isBatch]
  simp [BatchLog.Log.perform]

/-! ## Which step performs what -/

theorem filterMap_concat
    {Item Image : Type}
    (select : Item → Option Image)
    (items : List Item)
    (last : Item) :
    (items ++ [last]).filterMap select =
      items.filterMap select ++ (select last).toList := by
  rw [List.filterMap_append]
  cases selected : select last <;> simp [selected]

/-- Only a range that its code has not bounded yet can be bounded. -/
theorem bounds?_eq_none
    {action : Action Task}
    {batch : Nat}
    (on : action.batch? = some batch)
    (held : state.holders batch ≠ .unbounded)
    (taken : step N needsDrop state action = some after) :
    action.bounds? = none := by
  cases action with
  | intoBounded other | dropUnbounded other =>
      cases on
      simp only [step] at taken
      cases taken
  | _ => rfl

theorem bounds?_of_unbounded
    {action : Action Task}
    {batch : Nat}
    (on : action.batch? = some batch)
    (held : state.holders batch = .unbounded)
    (taken : step N needsDrop state action = some after) :
    action.bounds? = some batch := by
  cases action with
  | intoBounded other | dropUnbounded other => exact on
  | push task | owner | finish waker => cases on
  | _ =>
      cases on
      simp [step, held] at taken

theorem bounded?_eq
    {action : Action Task}
    {batch : Nat}
    {handle : Handle}
    {range : CounterRange}
    (isBounds : action.bounds? = some batch)
    (taken : step N needsDrop state action = some after)
    (found : after.queue.handles[batch]? = some handle)
    (stage : handle.stage = .bounded range) :
    bounded? N needsDrop (state, action) =
      some (batch, (taskIndices N range).map after.queue.buffer) := by
  simp [bounded?, isBounds, taken, found, Handle.range?, stage]

/-- An accepted push that returns is the one in progress. -/
theorem returning_eq (state : State Task) :
    state.returning = state.returning.head?.toList := by
  unfold State.returning
  split <;> cases state.call <;> rfl

theorem inFlight_of_returning
    {admission : Admission}
    (at_ : state.queue.owner = .returning admission) :
    state.inFlight = state.returning := by
  rw [State.inFlight, at_]

theorem isOpening_of_same
    (owner : after.queue.owner = state.queue.owner)
    (slot : after.queue.slot = state.queue.slot) :
    after.queue.isOpening = state.queue.isOpening := by
  simp only [Queue.State.isOpening, owner, slot]

theorem inFlight_of_same
    (owner : after.queue.owner = state.queue.owner)
    (slot : after.queue.slot = state.queue.slot)
    (length : after.queue.handles.length = state.queue.handles.length)
    (call : after.call = state.call) :
    after.inFlight = state.inFlight := by
  have opening := isOpening_of_same owner slot
  have returning : after.returning = state.returning := by
    simp only [State.returning, owner, call]
  rw [State.inFlight, owner, length, call, opening, returning]
  rfl

theorem openingTasks_of_same
    (owner : after.queue.owner = state.queue.owner)
    (slot : after.queue.slot = state.queue.slot)
    (cells : after.queue.cells = state.queue.cells)
    (pushed : after.pushed = state.pushed) :
    after.openingTasks = state.openingTasks := by
  rw [State.openingTasks, isOpening_of_same owner slot,
    Queue.State.accepted, cells, pushed]
  rfl

namespace Linearized

variable
    {trace : List (State Task × Action Task)}
    {events : List (BatchLog.Event Task)}
    {action : Action Task}

theorem initial :
    Linearized N needsDrop [] (RangeTasks.initial : State Task) [] where
  performed := rfl
  pushes := rfl
  bounds := rfl

/-- A step that performs one operation, or none. -/
theorem next
    (linear : Linearized N needsDrop trace state events)
    (newest : List (BatchLog.Event Task))
    (performs :
      (operation? (state, action) = none ∧
          after.log = state.log ∧ newest = []) ∨
        ∃ operation event,
          operation? (state, action) = some operation ∧
            state.log.perform operation = some (after.log, event) ∧
            newest = [event])
    (pushes :
      state.inFlight ++ newest.filterMap BatchLog.Event.pushed? =
        (returned? (state, action)).toList ++ after.inFlight)
    (bounds :
      (bounded? N needsDrop (state, action)).toList =
        (newest.filterMap BatchLog.Event.closed?).map fun told =>
          (told.1, told.2.map some)) :
    Linearized N needsDrop (trace ++ [(state, action)]) after
      (events ++ newest) := by
  constructor
  case performed =>
    rw [List.filterMap_append]
    rcases performs with ⟨none_, log, nothing⟩ | performs
    · subst nothing
      rw [List.filterMap_cons_none none_, List.filterMap_nil,
        List.append_nil, List.append_nil, log]
      exact linear.performed
    · obtain ⟨operation, event, isOperation, performed, isNew⟩ := performs
      subst isNew
      rw [List.filterMap_cons_some isOperation, List.filterMap_nil]
      exact BatchLog.Log.performAll_concat linear.performed performed
  case pushes =>
    rw [List.filterMap_append, linear.pushes, List.append_assoc, pushes,
      filterMap_concat, List.append_assoc]
  case bounds =>
    rw [filterMap_concat, linear.bounds, bounds, List.filterMap_append,
      List.map_append]

/-- A step that performs nothing and lets no push return. -/
theorem quiet
    (linear : Linearized N needsDrop trace state events)
    (performs : operation? (state, action) = none)
    (returns : returned? (state, action) = none)
    (bounds : action.bounds? = none)
    (log : after.log = state.log)
    (inFlight : after.inFlight = state.inFlight) :
    Linearized N needsDrop (trace ++ [(state, action)]) after events := by
  have next :
      Linearized N needsDrop (trace ++ [(state, action)]) after
        (events ++ []) := by
    apply linear.next [] (.inl ⟨performs, log, rfl⟩)
    · rw [returns, inFlight]
      simp
    · simp [bounded?, bounds]
  rw [List.append_nil] at next
  exact next

/-- The code that holds a range makes a step without bounding it. -/
theorem hold
    (linear : Linearized N needsDrop trace state events)
    {batch : Nat}
    (on : action.batch? = some batch)
    (bounds : action.bounds? = none)
    (log : after.log = state.log)
    (inFlight : after.inFlight = state.inFlight) :
    ∃ newest,
      Linearized N needsDrop (trace ++ [(state, action)]) after
        (events ++ newest) := by
  refine ⟨[], ?_⟩
  rw [List.append_nil]
  apply linear.quiet _ _ bounds log inFlight
  · cases action with
    | push _ | owner | finish _ => cases on
    | intoBounded _ | dropUnbounded _ => cases bounds
    | _ => rfl
  · cases action with
    | push _ | owner | finish _ => cases on
    | _ => rfl

/-- A range is released, and waiting callers are woken. -/
theorem release
    (linear : Linearized N needsDrop trace state events)
    {batch : Nat}
    (on : action.batch? = some batch)
    (bounds : action.bounds? = none)
    {queueAction : Queue.Action (Option Task) Nat}
    (isRelease :
      queueAction = .deoccupyRegion batch ∨
        ∃ retry, queueAction = .steal batch retry)
    (moved : Queue.Move N state.queue queueAction after.queue)
    (pushed : after.pushed = state.pushed)
    (call : after.call = state.call) :
    ∃ newest,
      Linearized N needsDrop (trace ++ [(state, action)]) after
        (events ++ newest) := by
  have released
      {old : Handle}
      {stage : Stage}
      (found : state.queue.handles[batch]? = some old)
      (wasBounded : old.isUnbounded = false)
      (isReleased : stage = .released ∨ ∃ left, stage = .draining left)
      (handles :
        after.queue.handles =
          state.queue.handles.set batch { old with stage := stage })
      (owner : after.queue.owner = state.queue.owner)
      (slot : after.queue.slot = state.queue.slot)
      (cells : after.queue.cells = state.queue.cells) :
      ∃ newest,
        Linearized N needsDrop (trace ++ [(state, action)]) after
          (events ++ newest) := by
    have notUnbounded : stage ≠ .unbounded := by
      rcases isReleased with same | ⟨left, same⟩ <;> rw [same] <;> simp
    apply linear.hold on bounds
    · exact
        log_of_release found wasBounded notUnbounded handles pushed
          (openingTasks_of_same owner slot cells pushed)
    · apply inFlight_of_same owner slot _ call
      rw [handles, List.length_set]
  generalize isQueue : after.queue = queue at moved released
  cases moved with
  | @deoccupyRegion index handle range found stage =>
      rcases isRelease with on | ⟨retry, on⟩ <;> cases on
      obtain ⟨next, handles, isReleased⟩ :=
        deoccupyRegion_stage N state.queue batch handle range
      exact
        released found (by simp [Handle.isUnbounded, stage]) isReleased
          handles rfl rfl rfl
  | retry found stage =>
      apply linear.hold on bounds
      · exact log_of_same (by rw [isQueue]) pushed
          (openingTasks_of_same (by rw [isQueue]) (by rw [isQueue])
            (by rw [isQueue]) pushed)
      · exact inFlight_of_same (by rw [isQueue]) (by rw [isQueue])
          (by rw [isQueue]) call
  | @steal index batchLimit handle found stage =>
      rcases isRelease with on | ⟨retry, on⟩ <;> cases on
      obtain ⟨next, handles, isReleased⟩ :=
        steal_handles state.queue batch handle batchLimit
      apply released found (by simp [Handle.isUnbounded, stage]) isReleased
        handles
      all_goals
        unfold Queue.steal
        split <;> rfl
  | call _ | owner _ | finish _ | register _ | setBounds _ _ | touch =>
      rcases isRelease with on | ⟨retry, on⟩ <;> cases on

/-- The owner's accesses. -/
theorem owner
    (linear : Linearized N needsDrop trace state events)
    (call : CallInvariant N state)
    (phase : PhaseInvariant N state.queue)
    {queue : Queue.State (Option Task) Nat}
    (moved : OwnerMove N state.queue queue) :
    ∃ newest,
      Linearized N needsDrop (trace ++ [(state, .owner)])
        { state with
          pushed := state.pushed ++ state.accepting
          queue := queue }
        (events ++ newest) := by
  have count : state.pushed.length = state.queue.accepted := by
    rw [← call.contents.count, List.length_map]
  have quietly
      (notAdding : state.accepting = [])
      (log : State.log { state with queue := queue } = state.log)
      (inFlight :
        State.inFlight { state with queue := queue } = state.inFlight) :
      ∃ newest,
        Linearized N needsDrop (trace ++ [(state, .owner)])
          { state with
            pushed := state.pushed ++ state.accepting
            queue := queue }
          (events ++ newest) := by
    have performs : operation? (state, .owner) = none := by
      simp [operation?, notAdding]
    refine ⟨[], ?_⟩
    rw [notAdding, List.append_nil, List.append_nil]
    exact linear.quiet performs rfl rfl log inFlight
  cases moved with
  | @add index at_ =>
      have callAt := call.callAt
      rw [at_] at callAt
      obtain ⟨task, called, _⟩ := callAt
      have accepting : state.accepting = [task] := by
        simp [State.accepting, at_, called]
      refine ⟨_, linear.next _ (.inr ⟨.push task, _, ?_,
        perform_push phase count accepting at_ rfl rfl List.length_append
          rfl, rfl⟩) ?_ rfl⟩
      · simp [operation?, accepting]
      · simp [State.inFlight, State.returning, at_, returned?, called,
          BatchLog.Event.pushed?]
  | @replaceJoined index baseSlot at_ same =>
      have joins := (phase.joins_iff at_).mp same
      apply quietly
      case notAdding => simp [State.accepting, at_]
      case log =>
        refine log_of_same rfl rfl ?_
        rw [State.openingTasks, State.openingTasks, joins]
        rfl
      case inFlight =>
        simp [State.inFlight, State.returning, at_, joins]
  | @replaceOpening index baseSlot at_ differ =>
      have opens : state.queue.isOpening = true := by
        rw [← Bool.not_eq_false, ← phase.joins_iff at_]
        exact differ
      apply quietly
      case notAdding => simp [State.accepting, at_]
      case log =>
        refine log_of_same rfl rfl ?_
        rw [State.openingTasks, State.openingTasks, opens]
        rfl
      case inFlight =>
        rw [State.inFlight, State.inFlight, at_, opens]
        rfl
  | occupy at_ =>
      apply quietly
      case notAdding => simp [State.accepting, at_]
      case log => exact log_of_occupy phase at_ rfl rfl rfl rfl
      case inFlight =>
        simp [State.inFlight, State.returning, at_, Queue.State.isOpening]
  | enterAtBoundary at_ _ | enterInside at_ _ | cachedFree at_ _
  | cachedBusy at_ _ | loadedFree at_ _ | loadedBusy at_ _
  | write at_ =>
      apply quietly
      case notAdding => simp [State.accepting, at_]
      case log =>
        refine log_of_same rfl rfl ?_
        simp [State.openingTasks, Queue.State.isOpening, at_]
      case inFlight => simp [State.inFlight, State.returning, at_]

/-- A range is bounded. -/
theorem bound
    (linear : Linearized N needsDrop trace state events)
    (call : CallInvariant N state)
    (phase : PhaseInvariant N state.queue)
    {batch : Nat}
    (isBounds : action.bounds? = some batch)
    (taken : step N needsDrop state action = some after)
    (moved : Queue.Move N state.queue (.setBounds batch) after.queue)
    (pushed : after.pushed = state.pushed)
    (sameCall : after.call = state.call)
    (callAfter : CallInvariant N after)
    (phaseAfter : PhaseInvariant N after.queue)
    (windowAfter : after.queue.LiveInWindow N) :
    ∃ newest,
      Linearized N needsDrop (trace ++ [(state, action)]) after
        (events ++ newest) := by
  have count : state.pushed.length = state.queue.accepted := by
    rw [← call.contents.count, List.length_map]
  generalize isQueue : after.queue = queue at moved
  cases moved with
  | @setBounds _ handle found stage =>
      have performs : operation? (state, action) = some .close := by
        cases action with
        | intoBounded _ | dropUnbounded _ => rfl
        | _ => cases isBounds
      have returns : returned? (state, action) = none := by
        cases action with
        | intoBounded _ | dropUnbounded _ => rfl
        | _ => cases isBounds
      have inFlight : after.inFlight = state.inFlight := by
        apply inFlight_of_same _ _ _ sameCall
        all_goals
          rw [isQueue]
          simp [Queue.setBounds, Queue.State.setHandle]
      obtain ⟨inBounds, _⟩ := List.getElem?_eq_some_iff.mp found
      have foundAfter :
          after.queue.handles[batch]? =
            some { handle with
              stage := .bounded
                ⟨handle.baseSlot >>> width.indexShift,
                  state.queue.innerSlot >>> width.indexShift⟩
              last := state.queue.accepted } := by
        rw [isQueue]
        exact List.getElem?_set_self inBounds
      have contents :=
        callAfter.contents.slices_of_live windowAfter phaseAfter
          (List.mem_of_getElem? foundAfter) rfl
      refine ⟨_, linear.next _ (.inr ⟨.close, _, performs,
        perform_close phase count found stage isQueue pushed, rfl⟩) ?_ ?_⟩
      · rw [returns, inFlight]
        simp [BatchLog.Event.pushed?]
      · rw [bounded?_eq isBounds taken foundAfter rfl, contents, pushed]
        simp [BatchLog.Event.closed?, slice, ← count]

/-- Every step performs at most one operation. -/
theorem move
    (safe : N.IsSafe)
    (linear : Linearized N needsDrop trace state events)
    (reachable : Reachable N needsDrop state)
    (taken : step N needsDrop state action = some after) :
    ∃ newest,
      Linearized N needsDrop (trace ++ [(state, action)]) after
        (events ++ newest) := by
  have call := Reachable.callInvariant reachable
  have phase := (Reachable.queue reachable).phaseInvariant
  have later := reachable.next trivial taken
  cases step_move taken with
  | @push task _ idle moved =>
      refine ⟨[], ?_⟩
      rw [List.append_nil]
      cases moved with
      | call at_ =>
          refine linear.quiet rfl rfl rfl (log_of_same rfl rfl ?_) ?_
          · simp [State.openingTasks, Queue.State.isOpening, at_]
          · simp [State.inFlight, State.returning, at_]
  | owner moved => exact linear.owner call phase moved
  | finish moved =>
      refine ⟨[], ?_⟩
      cases moved with
      | finish at_ | register at_ =>
          have flight := inFlight_of_returning at_
          refine linear.next [] (.inl ⟨rfl, log_of_same rfl rfl ?_, rfl⟩) ?_
            rfl
          · simp [State.openingTasks, Queue.State.isOpening, at_]
          · rw [List.filterMap_nil, List.append_nil, flight, returning_eq]
            simp [returned?, State.inFlight, State.returning]
  | bound on held returned moved found stage holds =>
      exact
        linear.bound call phase (bounds?_of_unbounded on held taken) taken
          moved rfl rfl (Reachable.callInvariant later)
          (Reachable.queue later).phaseInvariant
          ((Reachable.queue later).liveInWindow safe)
  | rehold on held holds =>
      refine linear.hold on (bounds?_eq_none on ?_ taken) rfl rfl
      rw [held]
      exact fun same => by cases same
  | visit on held holds more =>
      refine linear.hold on (bounds?_eq_none on ?_ taken) rfl rfl
      rw [held]
      rcases holds with isHold | isHold <;> rw [isHold] <;>
        exact fun same => by cases same
  | copy held | exhausted held atEnd | stop held
  | complete held released =>
      exact linear.hold rfl rfl rfl rfl
  | releaseCopied held moved | releaseDropped held emptied moved =>
      exact linear.release rfl rfl (.inl rfl) moved rfl rfl
  | @steal _ _ retry _ held moved =>
      exact linear.release rfl rfl (.inr ⟨retry, rfl⟩) moved rfl rfl

end Linearized

end Logs

/-! ## Whole runs -/

/--
In every run of a safe buffer there is an order of atomic operations, that of
the `fetch_add`s of the accepted pushes and of the bounding `fetch_xor`s, in
which every caller is told what it was told: whether its push opened a range,
and which, and the tasks that the cells of a bounded range hold.
-/
theorem pushes_linearize
    (N : BufferSize width)
    (safe : N.IsSafe)
    (needsDrop : Bool)
    (trace : List (State Task × Action Task))
    (state : State Task)
    (run : Run N needsDrop trace state) :
    ∃ events, Linearized N needsDrop trace state events := by
  induction run with
  | start => exact ⟨[], .initial⟩
  | next earlier taken inductionHypothesis =>
      obtain ⟨events, linear⟩ := inductionHypothesis
      obtain ⟨newest, longer⟩ :=
        linear.move safe (earlier.reachable fun _ _ => trivial) taken
      exact ⟨_, longer⟩

/-- A range of two tasks is bounded while the next push is on its way. -/
def openingRun : List (Action Nat) :=
  [.push 10, .owner, .owner, .owner, .owner, .owner, .owner, .finish none,
    .push 11, .owner, .owner, .owner, .owner, .finish none,
    .push 12, .owner, .owner, .intoBounded 0, .owner]

/-- The push that has not returned yet has already opened its batch. -/
theorem pushes_linearize_openingRun :
    ∃ (trace : List (State Nat × Action Nat)) (state : State Nat),
      Run smallestBuffer true trace state ∧
        state.log.closed = [[10, 11]] ∧
        state.log.current = some [12] ∧
        state.inFlight = [(12, some 1)] ∧
        ∃ events, Linearized smallestBuffer true trace state events := by
  have performed :
      ((TransitionSystem.execute (step smallestBuffer true) initial
          openingRun).map fun state : State Nat =>
        (state.log.closed, state.log.current, state.inFlight)) =
        some ([[10, 11]], some [12], [(12, some 1)]) := by
    decide +kernel
  obtain ⟨state, reached, shape⟩ := Option.map_eq_some_iff.mp performed
  simp only [Prod.mk.injEq] at shape
  obtain ⟨trace, run⟩ := TransitionSystem.Run.of_execute .start reached
  exact ⟨trace, state, run, shape.1, shape.2.1, shape.2.2,
    pushes_linearize smallestBuffer smallestBuffer_isSafe true trace state
      run⟩

end StackQueue.RangeTasks
