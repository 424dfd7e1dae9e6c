import StackQueue.RangeAccounts

namespace StackQueue.Callers

open Queue RangeTasks

/-!
# The callers of `push`

One queue with the callers of its `push`, which are numbered: who is within
`push`, whose tasks were accepted, and whose push opened which range.  What
the callers do before and after their push is left to the machines built on
this one; `CallerInvariant` is what the queue says about any of them.

`pushers` and `openers` are history: no step reads them.
-/

variable {width : PointerWidth} {Task : Type}

/-- A queue, its ranges and the callers of its `push`. -/
structure State (Task : Type) where
  base : RangeTasks.State Task
  /-- The caller whose `push` is in progress. -/
  call : Option Nat
  /-- The callers of the accepted pushes, by their `fetch_add`. -/
  pushers : List Nat
  /-- The caller whose push opened each range. -/
  openers : List Nat

/-- One step of the owner thread or of a thread that holds a range. -/
inductive Action (Task : Type) where
  /-- A caller calls `push`. -/
  | push (caller : Nat) (task : Task)
  /-- The owner's next access within `push`. -/
  | owner
  /-- `push` returns. -/
  | finish (waker : Option Nat)
  /-- The code that was given a range makes use of it. -/
  | range (batch : Nat) (action : RangeTasks.Action Task)
  deriving Repr, DecidableEq

/-- A queue without tasks. -/
def initial : State Task where
  base := RangeTasks.initial
  call := none
  pushers := []
  openers := []

namespace State

/-- Take a step of the queue or of one of its ranges. -/
def onBase
    (N : BufferSize width)
    (needsDrop : Bool)
    (state : State Task)
    (action : RangeTasks.Action Task) :
    Option (State Task) :=
  (RangeTasks.step N needsDrop state.base action).map fun base =>
    { state with base := base }

/-- The caller whose task the owner's next access accepts. -/
def accepting (state : State Task) : List Nat :=
  match state.base.queue.owner with
  | .adding _ => state.call.toList
  | _ => []

/-- The caller whose range the owner's next access creates. -/
def opening (state : State Task) : List Nat :=
  match state.base.queue.owner with
  | .occupying _ _ => state.call.toList
  | _ => []

end State

/-- The effect of one action, `none` when it is not enabled. -/
def step
    (N : BufferSize width)
    (needsDrop : Bool)
    (state : State Task) :
    Action Task → Option (State Task)
  | .push caller task =>
      State.onBase N needsDrop { state with call := some caller }
        (.push task)
  | .owner =>
      State.onBase N needsDrop {
        state with
        pushers := state.pushers ++ state.accepting
        openers := state.openers ++ state.opening } .owner
  | .finish waker =>
      State.onBase N needsDrop { state with call := none } (.finish waker)
  | .range batch action =>
      if action.batch? = some batch then
        state.onBase N needsDrop action
      else
        none

/-! ## What one step can do -/

/-- The moves of the machine, one constructor for each kind of step. -/
inductive Move
    (N : BufferSize width)
    (needsDrop : Bool)
    (state : State Task) :
    Action Task → State Task → Prop where
  | push
      {caller : Nat}
      {task : Task}
      {queue : Queue.State (Option Task) Nat}
      (idle : state.base.call = none)
      (moved :
        Queue.Move N state.base.queue (.call fun _ => some task) queue) :
      Move N needsDrop state (.push caller task)
        { state with
          call := some caller
          base := { state.base with call := some task, queue := queue } }
  | owner
      {queue : Queue.State (Option Task) Nat}
      (moved : OwnerMove N state.base.queue queue) :
      Move N needsDrop state .owner
        { state with
          pushers := state.pushers ++ state.accepting
          openers := state.openers ++ state.opening
          base := {
            state.base with
            pushed := state.base.pushed ++ state.base.accepting
            queue := queue } }
  | finish
      {waker : Option Nat}
      {queue : Queue.State (Option Task) Nat}
      (moved : Queue.Move N state.base.queue (.finish waker) queue) :
      Move N needsDrop state (.finish waker)
        { state with
          call := none
          base := {
            state.base with
            call := none
            refused := state.base.refused ++ state.base.refusing
            queue := queue } }
  | range
      {batch : Nat}
      {action : RangeTasks.Action Task}
      {base : RangeTasks.State Task}
      (on : action.batch? = some batch)
      (moved : RangeTasks.Move N needsDrop state.base action base) :
      Move N needsDrop state (.range batch action)
        { state with base := base }

section Moves

variable
    {N : BufferSize width}
    {needsDrop : Bool}
    {state after : State Task}

theorem onBase_some
    {action : RangeTasks.Action Task}
    (taken : state.onBase N needsDrop action = some after) :
    ∃ base,
      RangeTasks.Move N needsDrop state.base action base ∧
        { state with base := base } = after := by
  rw [State.onBase, Option.map_eq_some_iff] at taken
  obtain ⟨base, stepped, shape⟩ := taken
  exact ⟨base, RangeTasks.step_move stepped, shape⟩

/-- `step` makes no other move. -/
theorem step_move
    {action : Action Task}
    (taken : step N needsDrop state action = some after) :
    Move N needsDrop state action after := by
  cases action with
  | push caller task =>
      obtain ⟨base, moved, shape⟩ := onBase_some taken
      subst shape
      cases moved with
      | push idle moved => exact .push idle moved
      | bound on | rehold on | visit on => cases on
  | owner =>
      obtain ⟨base, moved, shape⟩ := onBase_some taken
      subst shape
      cases moved with
      | owner moved => exact .owner moved
      | bound on | rehold on | visit on => cases on
  | finish waker =>
      obtain ⟨base, moved, shape⟩ := onBase_some taken
      subst shape
      cases moved with
      | finish moved => exact .finish moved
      | bound on | rehold on | visit on => cases on
  | range batch action =>
      simp only [step] at taken
      split at taken
      · rename_i on
        obtain ⟨base, moved, shape⟩ := onBase_some taken
        subst shape
        exact .range on moved
      · cases taken

/-- A step of the callers is a step of the ranges. -/
theorem step_base
    {action : Action Task}
    (taken : step N needsDrop state action = some after) :
    ∃ baseAction,
      RangeTasks.step N needsDrop state.base baseAction =
        some after.base := by
  have onBase
      {middle : State Task}
      {baseAction : RangeTasks.Action Task}
      (stepped : middle.onBase N needsDrop baseAction = some after) :
      RangeTasks.step N needsDrop middle.base baseAction =
        some after.base := by
    rw [State.onBase, Option.map_eq_some_iff] at stepped
    obtain ⟨base, moved, shape⟩ := stepped
    rw [← shape]
    exact moved
  cases action with
  | push caller task | owner | finish waker =>
      have stepped := onBase taken
      exact ⟨_, stepped⟩
  | range batch action =>
      simp only [step] at taken
      split at taken
      · exact ⟨_, onBase taken⟩
      · cases taken

end Moves

/-! ## What the queue says about its callers -/

/-- What the owner's program point says about the push in progress. -/
def OwnerAt
    (call : Option Nat)
    (pushers openers : List Nat) :
    Owner (Option Task) → Prop
  | .idle => call = none
  | .entered _ | .checking _ _ | .loading _ _ | .writing _ _ | .adding _
  | .returning .queueFull =>
      ∃ caller, call = some caller ∧ caller ∉ pushers
  | .replacing _ _ | .occupying _ _ | .returning .joined =>
      ∃ caller,
        call = some caller ∧
          pushers.getLast? = some caller ∧
          caller ∉ openers
  | .returning (.opened batch) =>
      ∃ caller,
        call = some caller ∧
          pushers.getLast? = some caller ∧
          openers[batch]? = some caller

/-- Whose tasks were accepted, and who opened the ranges. -/
structure CallerInvariant
    (task : Nat → Task)
    (state : State Task) : Prop where
  count : state.pushers.length = state.base.queue.accepted
  ownTasks : state.base.pushed = state.pushers.map task
  given : state.base.call = state.call.map task
  ownerAt : OwnerAt state.call state.pushers state.openers
    state.base.queue.owner
  /-- No caller's task is accepted twice. -/
  distinct : state.pushers.Nodup
  opened : state.openers.length = state.base.queue.handles.length
  /-- A range was opened by the push of its first task. -/
  openers :
    ∀ (batch : Nat) (handle : Handle),
      state.base.queue.handles[batch]? = some handle →
      state.openers[batch]? = state.pushers[handle.first]?

/-- A caller pushes its own task, and only if it was not accepted before. -/
def Action.IsOwn
    (task : Nat → Task)
    (state : State Task) :
    Action Task → Prop
  | .push caller given => given = task caller ∧ caller ∉ state.pushers
  | _ => True

namespace CallerInvariant

variable
    {N : BufferSize width}
    {needsDrop : Bool}
    {task : Nat → Task}
    {state after : State Task}

theorem initial :
    CallerInvariant task (Callers.initial : State Task) where
  count := rfl
  ownTasks := rfl
  given := rfl
  ownerAt := rfl
  distinct := List.nodup_nil
  opened := rfl
  openers := by
    simp [Callers.initial, RangeTasks.initial, Queue.initial]

theorem pushed_length
    (invariant : CallerInvariant task state) :
    state.base.pushed.length = state.base.queue.accepted := by
  rw [invariant.ownTasks, List.length_map, invariant.count]

/-- The caller that opened a range is one of the pushers. -/
theorem mem_pushers
    (invariant : CallerInvariant task state)
    {batch opener : Nat}
    (isOpener : state.openers[batch]? = some opener) :
    opener ∈ state.pushers := by
  obtain ⟨inBounds, _⟩ := List.getElem?_eq_some_iff.mp isOpener
  rw [invariant.opened] at inBounds
  have found := List.getElem?_eq_getElem inBounds
  rw [invariant.openers batch _ found] at isOpener
  exact List.mem_of_getElem? isOpener

/-- The range a caller opened exists. -/
theorem exists_handle
    (invariant : CallerInvariant task state)
    {batch opener : Nat}
    (isOpener : state.openers[batch]? = some opener) :
    ∃ handle, state.base.queue.handles[batch]? = some handle := by
  obtain ⟨inBounds, _⟩ := List.getElem?_eq_some_iff.mp isOpener
  rw [invariant.opened] at inBounds
  exact ⟨_, List.getElem?_eq_getElem inBounds⟩

/-- Somebody opened each range. -/
theorem exists_opener
    (invariant : CallerInvariant task state)
    {batch : Nat}
    {handle : Handle}
    (found : state.base.queue.handles[batch]? = some handle) :
    ∃ opener, state.openers[batch]? = some opener := by
  have inBounds := (List.getElem?_eq_some_iff.mp found).1
  rw [← invariant.opened] at inBounds
  exact ⟨_, List.getElem?_eq_getElem inBounds⟩

theorem notMem_openers
    (invariant : CallerInvariant task state)
    {caller : Nat}
    (fresh : caller ∉ state.pushers) :
    caller ∉ state.openers := by
  intro member
  obtain ⟨batch, isOpener⟩ := List.mem_iff_getElem?.mp member
  exact fresh (invariant.mem_pushers isOpener)

/-- No two ranges were opened by one caller. -/
theorem openers_nodup
    (invariant : CallerInvariant task state)
    (phase : PhaseInvariant N state.base.queue) :
    state.openers.Nodup := by
  rw [List.nodup_iff_getElem?_ne_getElem?]
  intro i j before inBounds same
  rw [invariant.opened] at inBounds
  have first := List.getElem?_eq_getElem (Nat.lt_trans before inBounds)
  have second := List.getElem?_eq_getElem inBounds
  have increasing := List.pairwise_iff_getElem.mp phase.firsts_increasing
  have below :=
    increasing i j (by simpa using Nat.lt_trans before inBounds)
      (by simpa using inBounds) before
  rw [List.getElem_map, List.getElem_map] at below
  have atSecond := invariant.openers j _ second
  rw [invariant.openers i _ first, atSecond] at same
  have inOpeners : j < state.openers.length := by
    rw [invariant.opened]
    exact inBounds
  rw [List.getElem?_eq_getElem inOpeners] at atSecond
  obtain ⟨inPushers, _⟩ := List.getElem?_eq_some_iff.mp atSecond.symm
  exact List.nodup_iff_getElem?_ne_getElem?.mp invariant.distinct _ _
    below inPushers same

/-- No caller opened two ranges. -/
theorem opener_unique
    (invariant : CallerInvariant task state)
    (phase : PhaseInvariant N state.base.queue)
    {i j opener : Nat}
    (first : state.openers[i]? = some opener)
    (second : state.openers[j]? = some opener) :
    i = j := by
  obtain ⟨inBounds, _⟩ := List.getElem?_eq_some_iff.mp first
  exact
    (List.getElem?_inj inBounds (invariant.openers_nodup phase)).mp
      (first.trans second.symm)

/-- The caller within `push` at an owner's access of an accepted task. -/
theorem accepted_of_returning
    (invariant : CallerInvariant task state)
    {caller : Nat}
    {admission : Admission}
    (called : state.call = some caller)
    (at_ : state.base.queue.owner = .returning admission)
    (accepted : admission ≠ .queueFull) :
    caller ∈ state.pushers := by
  have ownerAt := invariant.ownerAt
  rw [at_] at ownerAt
  cases admission with
  | queueFull => exact (accepted rfl).elim
  | joined | opened batch =>
      obtain ⟨other, alsoCalled, last, _⟩ := ownerAt
      rw [called] at alsoCalled
      cases alsoCalled
      exact List.mem_of_getLast? last

/-- A refused caller is not among the pushers. -/
theorem fresh_of_refused
    (invariant : CallerInvariant task state)
    {caller : Nat}
    (called : state.call = some caller)
    (at_ : state.base.queue.owner = .returning .queueFull) :
    caller ∉ state.pushers := by
  have ownerAt := invariant.ownerAt
  rw [at_] at ownerAt
  obtain ⟨other, alsoCalled, fresh⟩ := ownerAt
  rw [called] at alsoCalled
  cases alsoCalled
  exact fresh

/-- The caller of an accepted push that returned no range opened none. -/
theorem notMem_openers_of_joined
    (invariant : CallerInvariant task state)
    {caller : Nat}
    (called : state.call = some caller)
    (at_ : state.base.queue.owner = .returning .joined) :
    caller ∉ state.openers := by
  have ownerAt := invariant.ownerAt
  rw [at_] at ownerAt
  obtain ⟨other, alsoCalled, _, notOpener⟩ := ownerAt
  rw [called] at alsoCalled
  cases alsoCalled
  exact notOpener

/-- The caller of a push that returned a range opened it. -/
theorem opener_of_opened
    (invariant : CallerInvariant task state)
    {caller batch : Nat}
    (called : state.call = some caller)
    (at_ : state.base.queue.owner = .returning (.opened batch)) :
    state.openers[batch]? = some caller := by
  have ownerAt := invariant.ownerAt
  rw [at_] at ownerAt
  obtain ⟨other, alsoCalled, _, isOpener⟩ := ownerAt
  rw [called] at alsoCalled
  cases alsoCalled
  exact isOpener

/-- The opener of a range that is still within its push is returning it. -/
theorem returning_of_opener
    (invariant : CallerInvariant task state)
    (phase : PhaseInvariant N state.base.queue)
    {caller batch : Nat}
    (called : state.call = some caller)
    (isOpener : state.openers[batch]? = some caller) :
    state.base.queue.owner = .returning (.opened batch) := by
  have ownerAt := invariant.ownerAt
  have opens := List.mem_of_getElem? isOpener
  have notFresh
      (fresh :
        ∃ other, state.call = some other ∧ other ∉ state.pushers) :
      False := by
    obtain ⟨other, alsoCalled, fresh⟩ := fresh
    rw [called] at alsoCalled
    cases alsoCalled
    exact fresh (invariant.mem_pushers isOpener)
  have notYet
      (joined :
        ∃ other,
          state.call = some other ∧
            state.pushers.getLast? = some other ∧
            other ∉ state.openers) :
      False := by
    obtain ⟨other, alsoCalled, _, notOpener⟩ := joined
    rw [called] at alsoCalled
    cases alsoCalled
    exact notOpener opens
  cases at_ : state.base.queue.owner with
  | idle =>
      rw [at_] at ownerAt
      rw [OwnerAt, called] at ownerAt
      cases ownerAt
  | entered _ | checking _ _ | loading _ _ | writing _ _ | adding _ =>
      rw [at_] at ownerAt
      exact (notFresh ownerAt).elim
  | replacing _ _ | occupying _ _ =>
      rw [at_] at ownerAt
      exact (notYet ownerAt).elim
  | returning admission =>
      rw [at_] at ownerAt
      cases admission with
      | queueFull => exact (notFresh ownerAt).elim
      | joined => exact (notYet ownerAt).elim
      | opened other =>
          obtain ⟨caller, alsoCalled, _, alsoOpener⟩ := ownerAt
          rw [called] at alsoCalled
          cases alsoCalled
          rw [invariant.opener_unique phase alsoOpener isOpener]

/-- No push is in progress while the queue is idle. -/
theorem call_of_given
    (invariant : CallerInvariant task state)
    (idle : state.base.call = none) :
    state.call = none := by
  have given := invariant.given
  rw [idle] at given
  exact Option.map_eq_none_iff.mp given.symm

/-- The owner's accesses within a push. -/
theorem owner
    (invariant : CallerInvariant task state)
    (phase : PhaseInvariant N state.base.queue)
    {queue : Queue.State (Option Task) Nat}
    (moved : OwnerMove N state.base.queue queue) :
    CallerInvariant task
      { state with
        pushers := state.pushers ++ state.accepting
        openers := state.openers ++ state.opening
        base := {
          state.base with
          pushed := state.base.pushed ++ state.base.accepting
          queue := queue } } := by
  have ownerAt := invariant.ownerAt
  have accepted : state.base.accepting = state.accepting.map task := by
    cases at_ : state.base.queue.owner with
    | adding index =>
        simp only [RangeTasks.State.accepting, State.accepting, at_,
          invariant.given]
        cases state.call <;> rfl
    | _ =>
        simp [RangeTasks.State.accepting, State.accepting, at_]
  have ownTasks :
      state.base.pushed ++ state.base.accepting =
        (state.pushers ++ state.accepting).map task := by
    rw [accepted, invariant.ownTasks, List.map_append]
  cases moved with
  | @add index at_ =>
      rw [at_] at ownerAt
      obtain ⟨caller, called, fresh⟩ := ownerAt
      have accepting : state.accepting = [caller] := by
        rw [State.accepting, at_, called]
        rfl
      have opening : state.opening = [] := by
        rw [State.opening, at_]
      rw [accepting] at ownTasks ⊢
      rw [opening, List.append_nil]
      constructor
      case count =>
        change _ = (state.base.queue.cells ++ [index]).length
        rw [List.length_append, List.length_append, invariant.count]
        rfl
      case ownTasks => exact ownTasks
      case given => exact invariant.given
      case ownerAt =>
        exact
          ⟨caller, called, List.getLast?_concat,
            invariant.notMem_openers fresh⟩
      case distinct =>
        change (state.pushers ++ [caller]).Nodup
        rw [← List.concat_eq_append]
        exact (List.nodup_concat _ _).mpr ⟨fresh, invariant.distinct⟩
      case opened => exact invariant.opened
      case openers =>
        intro batch handle found
        have below := phase.first_lt_covered (List.mem_of_getElem? found)
        have inPushers : handle.first < state.pushers.length := by
          rw [invariant.count]
          exact Nat.lt_of_lt_of_le below phase.covered_le_accepted
        rw [List.getElem?_append_left inPushers]
        exact invariant.openers batch handle found
  | @occupy index baseSlot at_ =>
      rw [at_] at ownerAt
      obtain ⟨caller, called, last, _⟩ := ownerAt
      have accepting : state.accepting = [] := by
        rw [State.accepting, at_]
      have opening : state.opening = [caller] := by
        rw [State.opening, at_, called]
        rfl
      have newOpener :
          (state.openers ++ [caller])[state.base.queue.handles.length]? =
            some caller := by
        rw [← invariant.opened]
        exact List.getElem?_concat_length
      rw [accepting, List.append_nil] at ownTasks ⊢
      rw [opening]
      constructor
      case count => exact invariant.count
      case ownTasks => exact ownTasks
      case given => exact invariant.given
      case ownerAt => exact ⟨caller, called, last, newOpener⟩
      case distinct => exact invariant.distinct
      case opened =>
        rw [List.length_append, List.length_append, invariant.opened]
        rfl
      case openers =>
        intro batch handle found
        rcases ListUpdate.getElem?_concat_cases found with
          earlier | ⟨isNew, isCreated⟩
        · have inBounds := (List.getElem?_eq_some_iff.mp earlier).1
          rw [← invariant.opened] at inBounds
          rw [List.getElem?_append_left inBounds]
          exact invariant.openers batch handle earlier
        · rw [isNew, newOpener, isCreated]
          change
            some caller = state.pushers[state.base.queue.accepted - 1]?
          rw [← invariant.count, ← List.getLast?_eq_getElem?, last]
  | enterAtBoundary at_ _ | enterInside at_ _ | cachedFree at_ _
  | cachedBusy at_ _ | loadedFree at_ _ | loadedBusy at_ _
  | write at_ | replaceJoined at_ _ | replaceOpening at_ _ =>
      have accepting : state.accepting = [] := by
        rw [State.accepting, at_]
      have opening : state.opening = [] := by
        rw [State.opening, at_]
      rw [accepting, List.append_nil] at ownTasks ⊢
      rw [opening, List.append_nil]
      rw [at_] at ownerAt
      exact
        ⟨invariant.count, ownTasks, invariant.given, ownerAt,
          invariant.distinct, invariant.opened, invariant.openers⟩

/-- A caller whose task was not accepted before calls `push`. -/
theorem push
    (invariant : CallerInvariant task state)
    {caller : Nat}
    {queue : Queue.State (Option Task) Nat}
    (fresh : caller ∉ state.pushers)
    (moved :
      Queue.Move N state.base.queue (.call fun _ => some (task caller))
        queue) :
    CallerInvariant task
      { state with
        call := some caller
        base := {
          state.base with
          call := some (task caller)
          queue := queue } } := by
  cases moved with
  | call at_ =>
      constructor
      case given => rfl
      case ownerAt => exact ⟨caller, rfl, fresh⟩
      case count => exact invariant.count
      case ownTasks => exact invariant.ownTasks
      case distinct => exact invariant.distinct
      case opened => exact invariant.opened
      case openers => exact invariant.openers

/-- `push` returns to its caller. -/
theorem finish
    (invariant : CallerInvariant task state)
    {waker : Option Nat}
    {queue : Queue.State (Option Task) Nat}
    (moved : Queue.Move N state.base.queue (.finish waker) queue) :
    CallerInvariant task
      { state with
        call := none
        base := {
          state.base with
          call := none
          refused := state.base.refused ++ state.base.refusing
          queue := queue } } := by
  cases moved with
  | finish _ | register _ =>
      exact
        ⟨invariant.count, invariant.ownTasks, rfl, rfl,
          invariant.distinct, invariant.opened, invariant.openers⟩

/-- A step of one range leaves the callers alone. -/
theorem of_frame
    (invariant : CallerInvariant task state)
    {batch : Nat}
    {base : RangeTasks.State Task}
    (frame : Frame batch state.base base) :
    CallerInvariant task { state with base := base } := by
  constructor
  case count =>
    rw [Queue.State.accepted, frame.cells]
    exact invariant.count
  case ownTasks =>
    rw [frame.pushed]
    exact invariant.ownTasks
  case given =>
    rw [frame.call]
    exact invariant.given
  case ownerAt =>
    rw [frame.owner]
    exact invariant.ownerAt
  case distinct => exact invariant.distinct
  case opened =>
    rw [frame.handles.length]
    exact invariant.opened
  case openers =>
    intro other handle found
    obtain ⟨old, foundOld, sameFirst⟩ := frame.handles.first found
    rw [sameFirst]
    exact invariant.openers other old foundOld

/-- Every step keeps the callers, who push their own tasks. -/
theorem move
    (invariant : CallerInvariant task state)
    (phase : PhaseInvariant N state.base.queue)
    {action : Action Task}
    (own : action.IsOwn task state)
    (moved : Move N needsDrop state action after) :
    CallerInvariant task after := by
  cases moved with
  | @push caller given queue idle moved =>
      obtain ⟨isTask, fresh⟩ := own
      subst isTask
      exact invariant.push fresh moved
  | owner moved => exact invariant.owner phase moved
  | finish moved => exact invariant.finish moved
  | range on moved => exact invariant.of_frame (moved.frame on)

end CallerInvariant

end StackQueue.Callers
