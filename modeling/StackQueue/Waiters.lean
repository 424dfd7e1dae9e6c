import StackQueue.QueueAdmission
import StackQueue.QueuePartition

namespace StackQueue.Waiters

/-!
# Refusal, registration and wake-ups

The poll functions of `task.rs` around a queue: a future whose task is refused
pushes its waker to the pending queue in a second step, while other threads
release ranges and take wakers.  Futures are numbered and a future's waker is
its number.  A future whose task is in the queue does not touch it any more
when polled.

A waiter is stranded when nobody is left who could wake it.  It happens in one
way: the last range is released, and its wake loop finds the pending queue
empty, between the refusal of a future and its registration.
-/

/-- A queue with the futures polled on it. -/
structure State (Cell : Type) where
  queue : Queue.State Cell Nat
  /-- The future being polled, and whether it had been woken. -/
  polling : Option (Nat × Bool)
  /-- The futures whose task is in the queue. -/
  accepted : List Nat
  /-- The futures woken since their latest poll began. -/
  woken : List Nat

/-- One step of the owner thread or of a thread that holds a range. -/
inductive Action (Cell : Type) where
  | poll (future : Nat) (write : Cell → Cell)
  | owner
  /-- The poll in progress returns, after `pending.push` if it was refused. -/
  | finish
  | setBounds (handle : Nat)
  | deoccupyRegion (handle : Nat)
  | steal (handle : Nat) (retry : Bool)
  | touch (index : Nat) (update : Cell → Cell)

variable {width : PointerWidth} {Cell : Type}

/-- A queue nobody waits for. -/
def initial (buffer : Nat → Cell) : State Cell where
  queue := Queue.initial buffer
  polling := none
  accepted := []
  woken := []

/-- The futures still marked as woken once a given one is polled. -/
def State.wokenWithout (state : State Cell) (future : Nat) : List Nat :=
  state.woken.filter (· ≠ future)

/-- The waker that the next successful `steal` takes. -/
def State.nextWaker (state : State Cell) : List Nat :=
  state.queue.pending.head?.toList

/-- Take a step of the queue. -/
def State.onQueue
    (N : BufferSize width)
    (state : State Cell)
    (action : Queue.Action Cell Nat) :
    Option (State Cell) :=
  (Queue.step N state.queue action).map fun queue =>
    { state with queue := queue }

/-- The effect of one action, `none` when it is not enabled. -/
def step
    (N : BufferSize width)
    (state : State Cell) :
    Action Cell → Option (State Cell)
  | .poll future write =>
      if state.polling.isSome then
        none
      else if future ∈ state.accepted then
        some { state with woken := state.wokenWithout future }
      else
        State.onQueue N {
          state with
          polling := some (future, future ∈ state.woken)
          woken := state.wokenWithout future } (.call write)
  | .owner =>
      state.onQueue N .owner
  | .finish =>
      match state.polling, state.queue.owner with
      | some (future, _), .returning .queueFull =>
          State.onQueue N { state with polling := none }
            (.finish (some future))
      | some (future, _), .returning _ =>
          State.onQueue N {
            state with
            polling := none
            accepted := future :: state.accepted } (.finish none)
      | _, _ => none
  | .setBounds handle =>
      state.onQueue N (.setBounds handle)
  | .deoccupyRegion handle =>
      state.onQueue N (.deoccupyRegion handle)
  | .steal handle true =>
      state.onQueue N (.steal handle true)
  | .steal handle false =>
      State.onQueue N
        { state with woken := state.woken ++ state.nextWaker }
        (.steal handle false)
  | .touch index update =>
      state.onQueue N (.touch index update)

/-- The states of the runs of a queue and its futures. -/
abbrev Reachable
    (N : BufferSize width)
    (buffer : Nat → Cell)
    (state : State Cell) :
    Prop :=
  TransitionSystem.Reachable (step N) TransitionSystem.anyStep
    (initial buffer) state

/-- The runs of a queue and its futures, with their traces. -/
abbrev Run
    (N : BufferSize width)
    (buffer : Nat → Cell)
    (trace : List (State Cell × Action Cell))
    (state : State Cell) :
    Prop :=
  TransitionSystem.Run (step N) (initial buffer) trace state

namespace State

/-- Some range is live. -/
def SomeLive (state : State Cell) : Prop :=
  state.queue.liveStarts ≠ []

/-- Some `deoccupy_region` is in its wake loop. -/
def SomeDraining (state : State Cell) : Prop :=
  ∃ handle ∈ state.queue.handles,
    ∃ batchLimit, handle.stage = .draining batchLimit

/-- Some woken future is still to be polled, or its poll has not returned. -/
def SomeWoken (state : State Cell) : Prop :=
  state.woken ≠ [] ∨ ∃ future, state.polling = some (future, true)

/--
No range is live, no release is in progress, no future is between its refusal
and its registration, and no woken future is still to be polled.
-/
def Quiescent (state : State Cell) : Prop :=
  ¬ state.SomeLive ∧
    ¬ state.SomeDraining ∧
    state.queue.owner ≠ .returning .queueFull ∧
    ¬ state.SomeWoken

/-- When nobody is left to wake a future, no future waits. -/
def NoneStranded (state : State Cell) : Prop :=
  state.Quiescent → state.queue.pending = []

/-- The poll in progress has not been refused and opens a range if it can. -/
def Opening (state : State Cell) : Prop :=
  match state.queue.owner with
  | .entered _ | .checking _ _ | .loading _ _ | .writing _ _
  | .adding _ => True
  | .replacing _ _ | .occupying _ _ => state.queue.isOpening = true
  | .idle | .returning _ => False

/-- A waiting future can count on somebody other than the poll in progress. -/
def Served (state : State Cell) : Prop :=
  state.queue.pending = [] ∨
    state.SomeLive ∨ state.SomeDraining ∨ state.woken ≠ []

/-- A waiting future can still count on somebody. -/
def Attended (state : State Cell) : Prop :=
  state.Served ∨
    (state.Opening ∧ ∃ future, state.polling = some (future, true))

end State

/--
A refused future registers while some range is live, some release is in its
wake loop or another woken future is to be polled; and so it is when a woken
future spends its poll without touching the queue, unless nobody waits.
-/
def Heard (state : State Cell) : Action Cell → Prop
  | .finish =>
      state.queue.owner = .returning .queueFull →
      state.SomeLive ∨ state.SomeDraining ∨ state.woken ≠ []
  | .poll future _ =>
      future ∈ state.accepted →
      state.queue.pending = [] ∨
        state.SomeLive ∨
        state.SomeDraining ∨
        state.wokenWithout future ≠ []
  | _ => True

/-! ## Steps of the queue -/

/-- A step of the queue leaves the futures alone. -/
theorem onQueue_some
    {N : BufferSize width}
    {state after : State Cell}
    {action : Queue.Action Cell Nat}
    (taken : state.onQueue N action = some after) :
    ∃ queue,
      Queue.step N state.queue action = some queue ∧
        { state with queue := queue } = after := by
  rw [State.onQueue, Option.map_eq_some_iff] at taken
  exact taken

/-- A step of the machine is at most one step of its queue. -/
theorem step_queue
    {N : BufferSize width}
    {state after : State Cell}
    {action : Action Cell}
    (taken : step N state action = some after) :
    after.queue = state.queue ∨
      ∃ queueAction,
        Queue.step N state.queue queueAction = some after.queue := by
  have lift
      {middle : State Cell}
      {queueAction : Queue.Action Cell Nat}
      (taken : middle.onQueue N queueAction = some after)
      (same : middle.queue = state.queue) :
      after.queue = state.queue ∨
        ∃ queueAction,
          Queue.step N state.queue queueAction = some after.queue := by
    obtain ⟨queue, stepped, shape⟩ := onQueue_some taken
    subst shape
    rw [same] at stepped
    exact Or.inr ⟨_, stepped⟩
  cases action with
  | poll future write =>
      simp only [step] at taken
      split at taken
      · cases taken
      · split at taken
        · cases taken
          exact Or.inl rfl
        · exact lift taken rfl
  | finish =>
      simp only [step] at taken
      split at taken
      · exact lift taken rfl
      · exact lift taken rfl
      · cases taken
  | steal handle retry =>
      cases retry with
      | true => exact lift taken rfl
      | false => exact lift taken rfl
  | owner | setBounds handle | deoccupyRegion handle
  | touch index update =>
      exact lift taken rfl

/-- The queue inside a run of the machine makes a run of its own. -/
theorem Reachable.queue
    {N : BufferSize width}
    {buffer : Nat → Cell}
    {state : State Cell}
    (reachable : Reachable N buffer state) :
    Queue.Reachable N buffer state.queue :=
  TransitionSystem.Reachable.project State.queue
    (fun _ _ taken =>
      (step_queue taken).imp_right fun ⟨action, stepped⟩ =>
        ⟨action, trivial, stepped⟩)
    reachable

/-! ## Somebody attends to the waiting futures -/

namespace State

variable
    {N : BufferSize width}
    {buffer : Nat → Cell}
    {state after : State Cell}

/-- Replacing a range that is not in its wake loop keeps the others. -/
theorem SomeDraining.set
    (draining : state.SomeDraining)
    {i : Nat}
    {old new : Queue.Handle}
    (found : state.queue.handles[i]? = some old)
    (notDraining : ∀ batchLimit, old.stage ≠ .draining batchLimit)
    (handles : after.queue.handles = state.queue.handles.set i new) :
    after.SomeDraining := by
  obtain ⟨handle, member, batchLimit, stage⟩ := draining
  obtain ⟨j, atHandle⟩ := List.getElem?_of_mem member
  have elsewhere : i ≠ j := by
    intro same
    rw [same, atHandle] at found
    cases found
    exact notDraining batchLimit stage
  refine ⟨handle, ?_, batchLimit, stage⟩
  rw [handles]
  refine List.mem_of_getElem? (i := j) ?_
  rw [List.getElem?_set_ne elsewhere]
  exact atHandle

/-- A step that touches neither the handles nor the pending queue. -/
theorem Served.of_same
    (served : state.Served)
    (pending : after.queue.pending = state.queue.pending)
    (handles : after.queue.handles = state.queue.handles)
    (woken : after.woken = state.woken) :
    after.Served := by
  have starts := Queue.State.liveStarts_congr handles
  rw [Served, SomeLive, SomeDraining, pending, handles, starts, woken]
  exact served

/-- A handle just created makes its range a live one. -/
theorem someLive_of_occupied
    {index baseSlot : Nat}
    (reachable : Queue.Reachable N buffer state.queue)
    (at_ : state.queue.owner = .occupying index baseSlot)
    (handles :
      after.queue.handles =
        state.queue.handles ++
          [⟨baseSlot, .unbounded, state.queue.accepted - 1, 0⟩]) :
    after.SomeLive := by
  have owner := (Queue.Reachable.phaseInvariant reachable).owner
  rw [at_] at owner
  obtain ⟨position, _, accepted, _⟩ := owner
  rw [SomeLive, Queue.liveStarts_occupy accepted handles]
  exact List.concat_ne_nil _ _

theorem Served.ownerMove
    (served : state.Served)
    (reachable : Queue.Reachable N buffer state.queue)
    {queue : Queue.State Cell Nat}
    (moved : Queue.OwnerMove N state.queue queue) :
    State.Served { state with queue := queue } := by
  have pending : queue.pending = state.queue.pending := by
    cases moved <;> rfl
  rcases moved.handles with same | ⟨index, baseSlot, at_, handles⟩
  · exact served.of_same pending same rfl
  · exact Or.inr (Or.inl (someLive_of_occupied reachable at_ handles))

theorem opening_of_replacing
    {index baseSlot : Nat}
    (at_ : state.queue.owner = .replacing index baseSlot)
    (differ : phaseOf baseSlot ≠ phaseOf state.queue.slot) :
    state.Opening := by
  simp only [Opening, Queue.State.isOpening, at_]
  exact decide_eq_true differ

/-- A call that is to open a range does so, or is refused by a live one. -/
theorem Opening.ownerMove
    (opening : state.Opening)
    (reachable : Queue.Reachable N buffer state.queue)
    {queue : Queue.State Cell Nat}
    (moved : Queue.OwnerMove N state.queue queue) :
    State.Opening { state with queue := queue } ∨
      State.SomeLive { state with queue := queue } := by
  have phase := Queue.Reachable.phaseInvariant reachable
  have stillLive
      (live : state.SomeLive)
      (handles : queue.handles = state.queue.handles) :
      State.SomeLive { state with queue := queue } := by
    rw [SomeLive, Queue.State.liveStarts_congr handles]
    exact live
  cases moved with
  | loadedBusy at_ busy =>
      have live : state.SomeLive :=
        Queue.Reachable.live_of_busy reachable busy
      exact Or.inr (stillLive live rfl)
  | add at_ =>
      by_cases unbounded : state.queue.hasUnbounded = true
      · have live : state.SomeLive :=
          Queue.State.live_of_hasUnbounded unbounded
        exact Or.inr (stillLive live rfl)
      · refine Or.inl ?_
        have differ :=
          phase.opens_of_no_unbounded at_ (by simpa using unbounded)
        exact opening_of_replacing rfl differ
  | replaceJoined at_ same =>
      rw [phase.joins_iff at_] at same
      simp only [Opening, at_] at opening
      rw [same] at opening
      cases opening
  | replaceOpening at_ differ =>
      exact Or.inl rfl
  | occupy at_ =>
      exact Or.inr (someLive_of_occupied reachable at_ rfl)
  | _ => exact Or.inl trivial

/-- The owner's accesses leave every waiting future attended. -/
theorem Attended.ownerMove
    (attended : state.Attended)
    (reachable : Queue.Reachable N buffer state.queue)
    {queue : Queue.State Cell Nat}
    (moved : Queue.OwnerMove N state.queue queue) :
    State.Attended { state with queue := queue } := by
  rcases attended with served | ⟨opening, wasWoken⟩
  · exact Or.inl (served.ownerMove reachable moved)
  · rcases opening.ownerMove reachable moved with still | live
    · exact Or.inr ⟨still, wasWoken⟩
    · exact Or.inl (Or.inr (Or.inl live))

/-- A step that leaves the owner's call alone. -/
theorem Attended.of_served
    (attended : state.Attended)
    (served : state.Served → after.Served)
    (owner : after.queue.owner = state.queue.owner)
    (slot : after.queue.slot = state.queue.slot)
    (polling : after.polling = state.polling) :
    after.Attended := by
  rcases attended with was | ⟨opening, wasWoken⟩
  · exact Or.inl (served was)
  · refine Or.inr ⟨?_, ?_⟩
    · rw [Opening, Queue.State.isOpening, owner, slot]
      exact opening
    · rw [polling]
      exact wasWoken

/-- Between the decision of a call and its return the poll counts no more. -/
theorem Attended.served_of_returning
    (attended : state.Attended)
    {admission : Queue.Admission}
    (at_ : state.queue.owner = .returning admission) :
    state.Served := by
  rcases attended with served | ⟨opening, _⟩
  · exact served
  · rw [Opening, at_] at opening
    cases opening

/-- A poll that begins takes over the wake-up it was due to. -/
theorem attended_of_call
    {future : Nat}
    {write : Cell → Cell}
    (attended : state.Attended)
    (at_ : state.queue.owner = .idle) :
    State.Attended {
      state with
      queue := { state.queue with owner := .entered write }
      polling := some (future, future ∈ state.woken)
      woken := state.wokenWithout future } := by
  rcases attended with served | ⟨opening, _⟩
  · rcases served with empty | live | draining | someWoken
    · exact Or.inl (Or.inl empty)
    · exact Or.inl (Or.inr (Or.inl live))
    · exact Or.inl (Or.inr (Or.inr (Or.inl draining)))
    · by_cases isWoken : future ∈ state.woken
      · exact Or.inr ⟨trivial, future, by simp [isWoken]⟩
      · refine Or.inl (Or.inr (Or.inr (Or.inr ?_)))
        rw [wokenWithout, List.filter_eq_self.mpr]
        · exact someWoken
        · intro other member
          have differs : other ≠ future := by
            intro same
            exact isWoken (same ▸ member)
          exact decide_eq_true differs
  · rw [Opening, at_] at opening
    cases opening

/-- Bounding a range leaves every waiting future attended. -/
theorem Attended.setBounds
    (attended : state.Attended)
    {i : Nat}
    {handle : Queue.Handle}
    (found : state.queue.handles[i]? = some handle)
    (stage : handle.stage = .unbounded) :
    State.Attended {
      state with queue := Queue.setBounds width state.queue i handle } := by
  have starts :
      (Queue.setBounds width state.queue i handle).liveStarts =
        state.queue.liveStarts :=
    Queue.liveStarts_setBounds found stage
  refine attended.of_served ?_ rfl rfl rfl
  rintro (empty | live | draining | someWoken)
  · exact Or.inl empty
  · refine Or.inr (Or.inl ?_)
    rw [SomeLive, starts]
    exact live
  · refine Or.inr (Or.inr (Or.inl ?_))
    refine draining.set found ?_ rfl
    rw [stage]
    exact fun _ => nofun
  · exact Or.inr (Or.inr (Or.inr someWoken))

/-- A release leaves a live range, or enters the wake loop. -/
theorem attended_of_deoccupyRegion
    (reachable : Queue.Reachable N buffer state.queue)
    {i : Nat}
    {handle : Queue.Handle}
    {range : Queue.CounterRange}
    (found : state.queue.handles[i]? = some handle)
    (stage : handle.stage = .bounded range) :
    State.Attended {
      state with
      queue := Queue.deoccupyRegion N state.queue i handle range } := by
  refine Or.inl ?_
  by_cases last :
    (Queue.deoccupyRegion N state.queue i handle range).liveStarts = []
  · have drains :=
      Queue.Reachable.last_release_drains reachable found stage last
    refine Or.inr (Or.inr (Or.inl ?_))
    refine ⟨{ handle with
        stage := .draining (regionSize width N.size) }, ?_, _, rfl⟩
    simp only [Queue.deoccupyRegion, drains, if_true]
    refine List.mem_of_getElem? (i := i) ?_
    obtain ⟨inBounds, _⟩ := List.getElem?_eq_some_iff.mp found
    exact List.getElem?_set_self inBounds
  · exact Or.inr (Or.inl last)

/-- The wake loop takes a waker, or finds that nobody waits. -/
theorem attended_of_steal
    (before : State Cell)
    {i batchLimit : Nat}
    {handle : Queue.Handle}
    (queue :
      after.queue = Queue.steal before.queue i handle batchLimit)
    (woken : after.woken = before.woken ++ before.nextWaker) :
    after.Attended := by
  refine Or.inl ?_
  cases waiting : before.queue.pending with
  | nil =>
      refine Or.inl ?_
      rw [queue]
      simp only [Queue.steal, waiting]
      exact waiting
  | cons waker rest =>
      refine Or.inr (Or.inr (Or.inr ?_))
      rw [woken, nextWaker, waiting]
      exact List.concat_ne_nil _ _

end State

/-- Steps that meet `Heard` leave every waiting future attended. -/
theorem attended_kept
    {N : BufferSize width}
    {buffer : Nat → Cell}
    {before after : State Cell}
    {action : Action Cell}
    (reachable : Reachable N buffer before)
    (attended : before.Attended)
    (heard : Heard before action)
    (taken : step N before action = some after) :
    after.Attended := by
  have queueReachable := reachable.queue
  cases action with
  | owner =>
      obtain ⟨queue, stepped, shape⟩ := onQueue_some taken
      subst shape
      exact attended.ownerMove queueReachable
        (Queue.ownerStep_move stepped)
  | setBounds i =>
      obtain ⟨queue, stepped, shape⟩ := onQueue_some taken
      subst shape
      cases Queue.step_move stepped with
      | setBounds found stage => exact attended.setBounds found stage
  | deoccupyRegion i =>
      obtain ⟨queue, stepped, shape⟩ := onQueue_some taken
      subst shape
      cases Queue.step_move stepped with
      | deoccupyRegion found stage =>
          exact State.attended_of_deoccupyRegion queueReachable found stage
  | touch index update =>
      obtain ⟨queue, stepped, shape⟩ := onQueue_some taken
      subst shape
      cases Queue.step_move stepped with
      | touch =>
          exact attended.of_served (fun served => served.of_same rfl rfl rfl)
            rfl rfl rfl
  | steal i retry =>
      cases retry with
      | true =>
          obtain ⟨queue, stepped, shape⟩ := onQueue_some taken
          subst shape
          cases Queue.step_move stepped with
          | retry found stage => exact attended
      | false =>
          obtain ⟨queue, stepped, shape⟩ := onQueue_some taken
          subst shape
          cases Queue.step_move stepped with
          | @steal _ batchLimit handle found stage =>
              exact State.attended_of_steal before rfl rfl
  | poll future write =>
      simp only [step] at taken
      split at taken
      · cases taken
      · split at taken
        · rename_i notPolling isAccepted
          cases taken
          exact Or.inl (heard isAccepted)
        · obtain ⟨queue, stepped, shape⟩ := onQueue_some taken
          subst shape
          cases Queue.step_move stepped with
          | call at_ => exact State.attended_of_call attended at_
  | finish =>
      simp only [step] at taken
      split at taken
      · rename_i future wasWoken polling at_
        obtain ⟨queue, stepped, shape⟩ := onQueue_some taken
        subst shape
        cases Queue.step_move stepped with
        | register _ => exact Or.inl (Or.inr (heard at_))
      · rename_i future wasWoken admission notFull polling at_
        obtain ⟨queue, stepped, shape⟩ := onQueue_some taken
        subst shape
        cases Queue.step_move stepped with
        | finish _ =>
            exact Or.inl ((attended.served_of_returning at_).of_same
              rfl rfl rfl)
      · cases taken

/-! ## Exactly which runs strand nobody -/

namespace State

variable {state : State Cell}

theorem Attended.noneStranded
    (attended : state.Attended) :
    state.NoneStranded := by
  rintro ⟨noneLive, noneDraining, _, noneWoken⟩
  rcases attended with served | ⟨_, future, polling⟩
  · rcases served with empty | live | draining | someWoken
    · exact empty
    · exact absurd live noneLive
    · exact absurd draining noneDraining
    · exact absurd (Or.inl someWoken) noneWoken
  · exact absurd (Or.inr ⟨future, polling⟩) noneWoken

/-- Between polls a state that strands nobody serves whoever waits. -/
theorem NoneStranded.served
    (noneStranded : state.NoneStranded)
    (notPolling : state.polling = none)
    (notRefused : state.queue.owner ≠ .returning .queueFull) :
    state.Served := by
  by_contra notServed
  simp only [Served, not_or] at notServed
  obtain ⟨waiting, noneLive, noneDraining, noneWoken⟩ := notServed
  refine waiting (noneStranded ⟨noneLive, noneDraining, notRefused, ?_⟩)
  rintro (someWoken | ⟨future, polling⟩)
  · exact noneWoken someWoken
  · rw [notPolling] at polling
    cases polling

end State

/-- Between polls the owner thread is not inside a call. -/
theorem Reachable.idle_of_not_polling
    {N : BufferSize width}
    {buffer : Nat → Cell}
    {state : State Cell}
    (reachable : Reachable N buffer state)
    (notPolling : state.polling = none) :
    state.queue.owner = .idle := by
  induction reachable with
  | start =>
      rfl
  | @next before after action earlier _ taken inductionHypothesis =>
      cases action with
      | poll future write =>
          simp only [step] at taken
          split at taken
          · cases taken
          · rename_i polling
            split at taken
            · cases taken
              exact inductionHypothesis (by simpa using polling)
            · obtain ⟨queue, stepped, shape⟩ := onQueue_some taken
              subst shape
              cases notPolling
      | finish =>
          simp only [step] at taken
          split at taken
          · obtain ⟨queue, stepped, shape⟩ := onQueue_some taken
            subst shape
            cases Queue.step_move stepped with
            | register _ => rfl
          · obtain ⟨queue, stepped, shape⟩ := onQueue_some taken
            subst shape
            cases Queue.step_move stepped with
            | finish _ => rfl
          · cases taken
      | owner =>
          obtain ⟨queue, stepped, shape⟩ := onQueue_some taken
          subst shape
          have idle := inductionHypothesis notPolling
          simp only [Queue.step, Queue.ownerStep, idle] at stepped
          cases stepped
      | setBounds i | deoccupyRegion i | touch index update =>
          obtain ⟨queue, stepped, shape⟩ := onQueue_some taken
          subst shape
          cases Queue.step_move stepped
          exact inductionHypothesis notPolling
      | steal i retry =>
          cases retry with
          | true =>
              obtain ⟨queue, stepped, shape⟩ := onQueue_some taken
              subst shape
              cases Queue.step_move stepped
              exact inductionHypothesis notPolling
          | false =>
              obtain ⟨queue, stepped, shape⟩ := onQueue_some taken
              subst shape
              cases Queue.step_move stepped
              rw [← inductionHypothesis notPolling]
              exact Queue.steal_owner _ _ _ _

/-- A step that strands nobody meets `Heard`. -/
theorem heard_of_noneStranded
    {N : BufferSize width}
    {buffer : Nat → Cell}
    {before after : State Cell}
    {action : Action Cell}
    (reachable : Reachable N buffer before)
    (taken : step N before action = some after)
    (noneStranded : after.NoneStranded) :
    Heard before action := by
  cases action with
  | finish =>
      intro at_
      simp only [step] at taken
      split at taken
      · rename_i future wasWoken polling _
        obtain ⟨queue, stepped, shape⟩ := onQueue_some taken
        subst shape
        cases Queue.step_move stepped with
        | register _ =>
            rcases noneStranded.served rfl nofun with empty | others
            · exact absurd empty (List.concat_ne_nil _ _)
            · exact others
      · rename_i admission notFull _ isAdmission
        rw [at_] at isAdmission
        cases isAdmission
        exact (notFull rfl).elim
      · cases taken
  | poll future write =>
      intro isAccepted
      simp only [step] at taken
      split at taken
      · cases taken
      · rename_i notPolling
        cases taken
        have polling : before.polling = none := by
          simpa using notPolling
        refine noneStranded.served polling ?_
        have idle := reachable.idle_of_not_polling polling
        change before.queue.owner ≠ _
        rw [idle]
        exact nofun
  | _ => trivial

/--
A run strands no waiting future exactly if every refused future registers
while somebody is left to wake it.
-/
theorem none_stranded_iff_heard
    (N : BufferSize width)
    (buffer : Nat → Cell)
    (trace : List (State Cell × Action Cell))
    (state : State Cell)
    (run : Run N buffer trace state) :
    ((∀ taken ∈ trace, taken.1.NoneStranded) ∧ state.NoneStranded) ↔
      ∀ taken ∈ trace, Heard taken.1 taken.2 := by
  have initially : (initial buffer : State Cell).Attended :=
    Or.inl (Or.inl rfl)
  exact run.holds_iff_condition initially
    (fun _ attended => attended.noneStranded)
    (fun reachable attended _ heard taken =>
      attended_kept reachable attended heard taken)
    (fun reachable _ _ taken noneStranded =>
      heard_of_noneStranded reachable taken noneStranded)
    (fun _ _ => trivial)

/-! ## The stranding run -/

/-- A task written as its future's number. -/
def pollTask (future : Nat) : Action (Option Nat) :=
  .poll future fun _ => some future

/-- The poll that opens the first range. -/
def openingPoll (future : Nat) : List (Action (Option Nat)) :=
  [pollTask future, .owner, .owner, .owner, .owner, .owner, .owner, .finish]

/-- A poll whose task joins the range, on a region boundary or off one. -/
def joiningPoll (future : Nat) : List (Action (Option Nat)) :=
  if future % 8 = 0 then
    [pollTask future, .owner, .owner, .owner, .owner, .owner, .finish]
  else
    [pollTask future, .owner, .owner, .owner, .owner, .finish]

/-- A full buffer of 64 tasks in one range. -/
def fullRun : List (Action (Option Nat)) :=
  openingPoll 0 ++ ((List.range 63).map fun i => joiningPoll (i + 1)).flatten

/--
The next future is refused; the range is released and its wake loop finds
nobody; then the future registers.
-/
def strandingRun : List (Action (Option Nat)) :=
  fullRun ++
    [pollTask 64, .owner, .owner, .owner,
      .setBounds 0, .deoccupyRegion 0, .steal 0 false, .finish]

/-- After the stranding run one future waits for a wake-up nobody will give. -/
theorem strandingRun_strands :
    ∃ state : State (Option Nat),
      Reachable Queue.smallestBuffer (fun _ => none) state ∧
        state.Quiescent ∧ state.queue.pending = [64] := by
  have performed :
      ((TransitionSystem.execute (step Queue.smallestBuffer)
          (initial fun _ => none) strandingRun).map fun state =>
        (state.queue.handles.map Queue.Handle.stage,
          state.woken, state.polling.isSome, state.queue.pending)) =
        some ([.released], [], false, [64]) := by
    decide +kernel
  obtain ⟨state, reached, shape⟩ := Option.map_eq_some_iff.mp performed
  simp only [Prod.mk.injEq, Option.isSome_eq_false_iff,
    Option.isNone_iff_eq_none] at shape
  obtain ⟨stages, noneWoken, notPolling, pending⟩ := shape
  have released :
      ∀ handle ∈ state.queue.handles, handle.stage = .released := by
    intro handle member
    have inStages := List.mem_map_of_mem (f := Queue.Handle.stage) member
    rw [stages] at inStages
    exact List.mem_singleton.mp inStages
  have reachable : Reachable Queue.smallestBuffer (fun _ => none) state :=
    TransitionSystem.Reachable.start.execute reached
  refine ⟨state, reachable, ⟨?_, ?_, ?_, ?_⟩, pending⟩
  · intro live
    obtain ⟨start, member⟩ := List.exists_mem_of_ne_nil _ live
    obtain ⟨handle, isLive, _⟩ := List.mem_map.mp member
    obtain ⟨inHandles, isLive⟩ := List.mem_filter.mp isLive
    simp [Queue.Handle.isLive, released handle inHandles] at isLive
  · rintro ⟨handle, member, batchLimit, stage⟩
    rw [released handle member] at stage
    cases stage
  · rw [reachable.idle_of_not_polling notPolling]
    exact fun refused => by cases refused
  · rintro (someWoken | ⟨future, polling⟩)
    · exact someWoken noneWoken
    · rw [notPolling] at polling
      cases polling

/--
The next future is refused and registers; then the range is released and its
wake loop takes the waker.
-/
def wakingRun : List (Action (Option Nat)) :=
  fullRun ++
    [pollTask 64, .owner, .owner, .owner, .finish,
      .setBounds 0, .deoccupyRegion 0, .steal 0 false]

/-- A refused future that registers in time is woken, and nobody stranded. -/
theorem none_stranded_iff_heard_fullRun :
    ∃ (trace : List (State (Option Nat) × Action (Option Nat)))
      (state : State (Option Nat)),
      Run Queue.smallestBuffer (fun _ => none) trace state ∧
        state.accepted.length = 64 ∧ 64 ∉ state.accepted ∧
        state.queue.pending = [] ∧ state.woken = [64] ∧
        (((∀ taken ∈ trace, taken.1.NoneStranded) ∧ state.NoneStranded) ↔
          ∀ taken ∈ trace, Heard taken.1 taken.2) := by
  have performed :
      ((TransitionSystem.execute (step Queue.smallestBuffer)
          (initial fun _ => none) wakingRun).map fun state =>
        ((state.accepted.length, decide (64 ∈ state.accepted)),
          (state.queue.pending, state.woken))) =
        some ((64, false), ([], [64])) := by
    decide +kernel
  obtain ⟨state, reached, shape⟩ := Option.map_eq_some_iff.mp performed
  simp only [Prod.mk.injEq, decide_eq_false_iff_not] at shape
  obtain ⟨⟨count, refused⟩, pending, woken⟩ := shape
  obtain ⟨trace, run⟩ :=
    TransitionSystem.Run.of_execute TransitionSystem.Run.start reached
  exact ⟨trace, state, run, count, refused, pending, woken,
    none_stranded_iff_heard Queue.smallestBuffer _ trace state run⟩

end StackQueue.Waiters
