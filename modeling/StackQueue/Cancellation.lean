import StackQueue.Waiters

namespace StackQueue.Cancellation

/-!
# Cancelled waiters and the wake limit

Polls and releases as whole calls: a poll runs `push` or `enqueue` to its end
and registers at once when refused, a release runs `deoccupy_region` with its
wake loop.  Any future may be dropped at any time; its waker stays where it
is, and waking it does nothing.

Each wake loop takes at most `region_size` wakers, so progress rests on one of
them belonging to a future that still exists.
-/

/-- A queue with the futures polled on it. -/
structure State (Cell : Type) where
  queue : Queue.State Cell Nat
  /-- The futures whose task is in the queue. -/
  accepted : List Nat
  /-- The futures woken and not polled since. -/
  woken : List Nat
  /-- The futures that exist no more. -/
  dropped : List Nat

/-- One whole call, or the end of a future. -/
inductive Action (Cell : Type) where
  | poll (future : Nat) (write : Cell → Cell)
  | bound (handle : Nat)
  | release (handle : Nat)
  | drop (future : Nat)

variable {width : PointerWidth} {Cell : Type}

/-- A queue nobody waits for. -/
def initial (buffer : Nat → Cell) : State Cell where
  queue := Queue.initial buffer
  accepted := []
  woken := []
  dropped := []

/-- Perform the owner's accesses up to the end of the call. -/
def runOwner
    (N : BufferSize width) :
    Nat → Queue.State Cell Nat → Queue.State Cell Nat
  | 0, queue => queue
  | fuel + 1, queue =>
      match Queue.step N queue .owner with
      | some next => runOwner N fuel next
      | none => queue

/--
A whole call for a future, with its registration if it is refused.  A call
makes at most seven accesses.
-/
def callQueue
    (N : BufferSize width)
    (future : Nat)
    (write : Cell → Cell)
    (queue : Queue.State Cell Nat) :
    Option (Queue.State Cell Nat × Bool) :=
  match Queue.step N queue (.call write) with
  | none => none
  | some entered =>
      let returned := runOwner N 7 entered
      match returned.owner with
      | .returning .queueFull =>
          (Queue.step N returned (.finish (some future))).map (·, true)
      | _ =>
          (Queue.step N returned (.finish none)).map (·, false)

/-- Perform the wake loop of a handle, without `Retry`. -/
def runWakeLoop
    (N : BufferSize width)
    (handle : Nat) :
    Nat → Queue.State Cell Nat → Queue.State Cell Nat
  | 0, queue => queue
  | fuel + 1, queue =>
      match Queue.step N queue (.steal handle false) with
      | some next => runWakeLoop N handle fuel next
      | none => queue

/-- A whole `deoccupy_region` for a handle's range. -/
def releaseQueue
    (N : BufferSize width)
    (handle : Nat)
    (queue : Queue.State Cell Nat) :
    Option (Queue.State Cell Nat) :=
  (Queue.step N queue (.deoccupyRegion handle)).map
    (runWakeLoop N handle (regionSize width N.size))

namespace State

/-- The futures still marked as woken once a given one is polled. -/
def wokenWithout (state : State Cell) (future : Nat) : List Nat :=
  state.woken.filter (· ≠ future)

/-- The existing futures whose wakers a release has taken. -/
def awakened
    (state : State Cell)
    (after : Queue.State Cell Nat) :
    List Nat :=
  (state.queue.pending.take
    (state.queue.pending.length - after.pending.length)).filter
      (· ∉ state.dropped)

end State

/-- The effect of one action, `none` when it is not enabled. -/
def step
    (N : BufferSize width)
    (state : State Cell) :
    Action Cell → Option (State Cell)
  | .poll future write =>
      if future ∈ state.dropped then
        none
      else if future ∈ state.accepted then
        some { state with woken := state.wokenWithout future }
      else
        (callQueue N future write state.queue).map fun (queue, refused) => {
          state with
          queue := queue
          accepted :=
            if refused then state.accepted else future :: state.accepted
          woken := state.wokenWithout future }
  | .bound handle =>
      (Queue.step N state.queue (.setBounds handle)).map fun queue =>
        { state with queue := queue }
  | .release handle =>
      (releaseQueue N handle state.queue).map fun queue => {
        state with
        queue := queue
        woken := state.woken ++ state.awakened queue }
  | .drop future =>
      some { state with dropped := future :: state.dropped }

/-- The states of the runs of a queue and its futures. -/
abbrev Reachable
    (N : BufferSize width)
    (buffer : Nat → Cell)
    (state : State Cell) :
    Prop :=
  TransitionSystem.Reachable (step N) TransitionSystem.anyStep
    (initial buffer) state

/-- The runs of a queue and its futures, with their traces. -/
abbrev Run
    (N : BufferSize width)
    (buffer : Nat → Cell)
    (trace : List (State Cell × Action Cell))
    (state : State Cell) :
    Prop :=
  TransitionSystem.Run (step N) (initial buffer) trace state

namespace State

/-- A future that exists, waits, and has its waker in the pending queue. -/
def Waits (state : State Cell) (future : Nat) : Prop :=
  future ∈ state.queue.pending ∧
    future ∉ state.dropped ∧
    future ∉ state.accepted

/-- Some future that exists was woken and is still to be polled. -/
def SomeWoken (state : State Cell) : Prop :=
  ∃ future ∈ state.woken, future ∉ state.dropped

/--
While a future waits, some range is live or some woken future that exists is
still to be polled.
-/
def NoneStranded (state : State Cell) : Prop :=
  (∃ future, state.Waits future) →
    state.queue.liveStarts ≠ [] ∨ state.SomeWoken

/-- The same once a given future is out of the way. -/
def NoneStrandedWithout (state : State Cell) (future : Nat) : Prop :=
  (∃ other, other ≠ future ∧ state.Waits other) →
    state.queue.liveStarts ≠ [] ∨
      ∃ other ∈ state.woken, other ≠ future ∧ other ∉ state.dropped

end State

/--
Dropping a future, or polling one whose task is in the queue, leaves no other
one stranded; and a release of the only live range, when it does not reach all
who wait, wakes an existing future, unless one is still to be polled anyway.
-/
def Sustained
    (N : BufferSize width)
    (state : State Cell) :
    Action Cell → Prop
  | .poll future _ =>
      future ∈ state.accepted → state.NoneStrandedWithout future
  | .bound _ => True
  | .release _ =>
      let limit := regionSize width N.size
      state.queue.liveStarts.length = 1 →
      (∃ future ∈ state.queue.pending.drop limit,
        future ∉ state.dropped ∧ future ∉ state.accepted) →
      ∃ future ∈ state.woken ++ state.queue.pending.take limit,
        future ∉ state.dropped
  | .drop future =>
      state.NoneStrandedWithout future

/-! ## Whole calls -/

section Calls

variable
    {N : BufferSize width}
    {buffer : Nat → Cell}
    {queue after : Queue.State Cell Nat}

/-- How many accesses a call has left at most. -/
def accessesLeft : Queue.Owner Cell → Nat
  | .idle | .returning _ => 0
  | .occupying _ _ => 1
  | .replacing _ _ => 2
  | .adding _ => 3
  | .writing _ _ => 4
  | .loading _ _ => 5
  | .checking _ _ => 6
  | .entered _ => 7

/-- A call that runs undisturbed ends while some range is live. -/
def Deciding (queue : Queue.State Cell Nat) : Prop :=
  match queue.owner with
  | .idle => False
  | .returning _ => queue.liveStarts ≠ []
  | .replacing _ _ => queue.isOpening = true ∨ queue.liveStarts ≠ []
  | _ => True

theorem Deciding.ownerMove
    (deciding : Deciding queue)
    (reachable : Queue.Reachable N buffer queue)
    (moved : Queue.OwnerMove N queue after) :
    Deciding after ∧
      accessesLeft after.owner < accessesLeft queue.owner := by
  have phase := Queue.Reachable.phaseInvariant reachable
  have stillLive
      (live : queue.liveStarts ≠ [])
      (handles : after.handles = queue.handles) :
      after.liveStarts ≠ [] := by
    rw [Queue.State.liveStarts_congr handles]
    exact live
  cases moved with
  | loadedBusy at_ busy =>
      have live : queue.liveStarts ≠ [] :=
        Queue.Reachable.live_of_busy reachable busy
      refine ⟨stillLive live rfl, ?_⟩
      simp [at_, accessesLeft]
  | add at_ =>
      refine ⟨?_, by simp [at_, accessesLeft]⟩
      by_cases unbounded : queue.hasUnbounded = true
      · have live : queue.liveStarts ≠ [] :=
          Queue.State.live_of_hasUnbounded unbounded
        exact Or.inr (stillLive live rfl)
      · have differ :=
          phase.opens_of_no_unbounded at_ (by simpa using unbounded)
        exact Or.inl (decide_eq_true differ)
  | replaceJoined at_ same =>
      refine ⟨?_, by simp [at_, accessesLeft]⟩
      rw [phase.joins_iff at_] at same
      simp only [Deciding, at_, same] at deciding
      rcases deciding with opening | live
      · cases opening
      · exact stillLive live rfl
  | occupy at_ =>
      refine ⟨?_, by simp [at_, accessesLeft]⟩
      have owner := phase.owner
      rw [at_] at owner
      obtain ⟨position, _, accepted, _⟩ := owner
      simp only [Deciding]
      rw [Queue.liveStarts_occupy accepted rfl]
      exact List.concat_ne_nil _ _
  | enterAtBoundary at_ _ | enterInside at_ _ | cachedFree at_ _
  | cachedBusy at_ _ | loadedFree at_ _ | write at_
  | replaceOpening at_ _ =>
      exact ⟨trivial, by simp [at_, accessesLeft]⟩

/-- A call performed to its end is decided while some range is live. -/
theorem runOwner_decided
    {fuel : Nat}
    (enough : accessesLeft queue.owner ≤ fuel)
    (deciding : Deciding queue)
    (reachable : Queue.Reachable N buffer queue) :
    Queue.Reachable N buffer (runOwner N fuel queue) ∧
      (∃ admission,
        (runOwner N fuel queue).owner = .returning admission) ∧
      (runOwner N fuel queue).liveStarts ≠ [] := by
  have ended
      {admission : Queue.Admission}
      (returning : queue.owner = .returning admission) :
      (∃ admission, queue.owner = .returning admission) ∧
        queue.liveStarts ≠ [] := by
    simp only [Deciding, returning] at deciding
    exact ⟨⟨admission, returning⟩, deciding⟩
  have notIdle : queue.owner ≠ .idle := by
    intro idle
    simp only [Deciding, idle] at deciding
  induction fuel generalizing queue with
  | zero =>
      refine ⟨reachable, ?_⟩
      cases at_ : queue.owner with
      | returning admission => exact ended at_
      | idle => exact absurd at_ notIdle
      | _ => simp [at_, accessesLeft] at enough
  | succ fuel inductionHypothesis =>
      rw [runOwner]
      cases taken : Queue.step N queue .owner with
      | none =>
          refine ⟨reachable, ?_⟩
          rcases Queue.ownerStep_enabled N queue with
            idle | ⟨admission, returning⟩ | ⟨next, present⟩
          · exact absurd idle notIdle
          · exact ended returning
          · rw [Queue.step, present] at taken
            cases taken
      | some next =>
          obtain ⟨nextDeciding, fewer⟩ :=
            deciding.ownerMove reachable (Queue.ownerStep_move taken)
          have nextReachable : Queue.Reachable N buffer next :=
            reachable.next trivial taken
          refine inductionHypothesis (by omega) nextDeciding nextReachable
            ?_ ?_
          · intro admission returning
            simp only [Deciding, returning] at nextDeciding
            exact ⟨⟨admission, returning⟩, nextDeciding⟩
          · intro idle
            simp only [Deciding, idle] at nextDeciding

/-- A whole call leaves some range live, accepted or not. -/
theorem callQueue_live
    {future : Nat}
    {write : Cell → Cell}
    {refused : Bool}
    (reachable : Queue.Reachable N buffer queue)
    (called : callQueue N future write queue = some (after, refused)) :
    Queue.Reachable N buffer after ∧ after.liveStarts ≠ [] := by
  unfold callQueue at called
  split at called
  · cases called
  · rename_i entered stepped
    have enteredReachable : Queue.Reachable N buffer entered :=
      reachable.next trivial stepped
    have deciding : Deciding entered ∧ accessesLeft entered.owner ≤ 7 := by
      cases Queue.step_move stepped with
      | call at_ => exact ⟨trivial, Nat.le_refl 7⟩
    obtain ⟨returnedReachable, _, live⟩ :=
      runOwner_decided deciding.2 deciding.1 enteredReachable
    have finished
        {waker : Option Nat}
        (taken :
          Queue.step N (runOwner N 7 entered) (.finish waker) =
            some after) :
        Queue.Reachable N buffer after ∧ after.liveStarts ≠ [] := by
      refine ⟨returnedReachable.next trivial taken, ?_⟩
      cases Queue.step_move taken with
      | finish at_ => exact live
      | register at_ => exact live
    simp only at called
    split at called
    · obtain ⟨queue, taken, shape⟩ := Option.map_eq_some_iff.mp called
      cases shape
      exact finished taken
    · obtain ⟨queue, taken, shape⟩ := Option.map_eq_some_iff.mp called
      cases shape
      exact finished taken

/-- A wake loop neither starts nor ends a live range. -/
theorem runWakeLoop_live
    {fuel i : Nat}
    (reachable : Queue.Reachable N buffer queue) :
    Queue.Reachable N buffer (runWakeLoop N i fuel queue) ∧
      (runWakeLoop N i fuel queue).liveStarts = queue.liveStarts := by
  induction fuel generalizing queue with
  | zero =>
      exact ⟨reachable, rfl⟩
  | succ fuel inductionHypothesis =>
      rw [runWakeLoop]
      cases taken : Queue.step N queue (.steal i false) with
      | none =>
          exact ⟨reachable, rfl⟩
      | some next =>
          have nextReachable : Queue.Reachable N buffer next :=
            reachable.next trivial taken
          obtain ⟨lastReachable, same⟩ := inductionHypothesis nextReachable
          refine ⟨lastReachable, same.trans ?_⟩
          cases Queue.step_move taken with
          | steal found stage => exact Queue.liveStarts_steal found stage

/-- A wake loop takes as many wakers as its limit, or all of them. -/
theorem runWakeLoop_pending
    {fuel i batchLimit : Nat}
    {handle : Queue.Handle}
    (found : queue.handles[i]? = some handle)
    (stage : handle.stage = .draining batchLimit)
    (positive : 0 < batchLimit)
    (enough : batchLimit ≤ fuel) :
    (runWakeLoop N i fuel queue).pending =
      queue.pending.drop batchLimit := by
  induction fuel generalizing queue batchLimit handle with
  | zero => omega
  | succ fuel inductionHypothesis =>
      obtain ⟨inBounds, _⟩ := List.getElem?_eq_some_iff.mp found
      have taken :
          Queue.step N queue (.steal i false) =
            some (Queue.steal queue i handle batchLimit) :=
        Queue.Move.taken (.steal found stage)
      have ended
          {fuel : Nat}
          {released : Queue.State Cell Nat}
          (atReleased :
            released.handles[i]? =
              some { handle with stage := .released }) :
          runWakeLoop N i fuel released = released := by
        cases fuel with
        | zero => rfl
        | succ fuel => simp [runWakeLoop, Queue.step, atReleased]
      simp only [runWakeLoop, taken]
      cases waiting : queue.pending with
      | nil =>
          simp only [Queue.steal, waiting]
          rw [ended]
          · simp [Queue.State.setHandle, waiting]
          · simp [Queue.State.setHandle, inBounds]
      | cons waker rest =>
          obtain ⟨left, rfl⟩ : ∃ left, batchLimit = left + 1 :=
            ⟨batchLimit - 1, by omega⟩
          simp only [Queue.steal, waiting, Nat.add_sub_cancel,
            List.drop_succ_cons]
          by_cases spent : left = 0
          · subst spent
            rw [ended]
            · simp
            · simp [Queue.State.setHandle, inBounds]
          · simp only [if_neg spent]
            have next :
                (queue.handles.set i
                    { handle with stage := .draining left })[i]? =
                  some { handle with stage := .draining left } :=
              List.getElem?_set_self inBounds
            exact inductionHypothesis next rfl (by omega) (by omega)

/--
A release leaves the other ranges live; the release of the only live range
takes `region_size` wakers.
-/
theorem releaseQueue_spec
    {i : Nat}
    (reachable : Queue.Reachable N buffer queue)
    (called : releaseQueue N i queue = some after) :
    Queue.Reachable N buffer after ∧
      (after.liveStarts = [] ↔ queue.liveStarts.length = 1) ∧
      (after.liveStarts = [] →
        after.pending =
          queue.pending.drop (regionSize width N.size)) := by
  obtain ⟨released, taken, shape⟩ := Option.map_eq_some_iff.mp called
  subst shape
  have releasedReachable : Queue.Reachable N buffer released :=
    reachable.next trivial taken
  let limit := regionSize width N.size
  have kept :
      Queue.Reachable N buffer (runWakeLoop N i limit released) ∧
        (runWakeLoop N i limit released).liveStarts =
          released.liveStarts :=
    runWakeLoop_live releasedReachable
  obtain ⟨afterReachable, starts⟩ := kept
  rw [starts]
  refine ⟨afterReachable, ?_⟩
  cases Queue.step_move taken with
  | @deoccupyRegion _ handle range found stage =>
      have fewer := Queue.liveStarts_deoccupyRegion (N := N) found stage
      constructor
      · rw [fewer.length_eq, List.length_cons, Nat.add_eq_right,
          List.length_eq_zero_iff]
      · intro last
        have drains :=
          Queue.Reachable.last_release_drains reachable found stage last
        obtain ⟨inBounds, _⟩ := List.getElem?_eq_some_iff.mp found
        have draining :
            (Queue.deoccupyRegion N queue i handle range).handles[i]? =
              some { handle with stage := .draining limit } := by
          simp [Queue.deoccupyRegion, Queue.State.setHandle, drains,
            inBounds, limit]
        exact runWakeLoop_pending draining rfl N.regionSize_positive
          (Nat.le_refl _)

end Calls

/-! ## Exactly which runs strand nobody -/

/-- The queue inside a run of the machine makes a run of its own. -/
theorem Reachable.queue
    {N : BufferSize width}
    {buffer : Nat → Cell}
    {state : State Cell}
    (reachable : Reachable N buffer state) :
    Queue.Reachable N buffer state.queue := by
  induction reachable with
  | start =>
      exact .start
  | next _ _ taken inductionHypothesis =>
      rename_i action _ _
      cases action with
      | poll future write =>
          simp only [step] at taken
          split at taken
          · cases taken
          · split at taken
            · cases taken
              exact inductionHypothesis
            · obtain ⟨⟨queue, refused⟩, called, shape⟩ :=
                Option.map_eq_some_iff.mp taken
              subst shape
              exact (callQueue_live inductionHypothesis called).1
      | bound i =>
          obtain ⟨queue, stepped, shape⟩ := Option.map_eq_some_iff.mp taken
          subst shape
          exact inductionHypothesis.next trivial stepped
      | release i =>
          obtain ⟨queue, called, shape⟩ := Option.map_eq_some_iff.mp taken
          subst shape
          exact (releaseQueue_spec inductionHypothesis called).1
      | drop future =>
          cases taken
          exact inductionHypothesis

section Steps

variable
    {N : BufferSize width}
    {state after : State Cell}

/-- A state strands nobody without a future if its waiters and wakers agree. -/
theorem noneStranded_iff_without
    {future : Nat}
    (starts : after.queue.liveStarts = state.queue.liveStarts)
    (waits :
      ∀ other, after.Waits other ↔ other ≠ future ∧ state.Waits other)
    (woken :
      after.SomeWoken ↔
        ∃ other ∈ state.woken, other ≠ future ∧ other ∉ state.dropped) :
    after.NoneStranded ↔ state.NoneStrandedWithout future := by
  rw [State.NoneStranded, State.NoneStrandedWithout, starts, woken]
  simp only [waits]

theorem noneStranded_drop_iff
    (future : Nat) :
    State.NoneStranded
        { state with dropped := future :: state.dropped } ↔
      state.NoneStrandedWithout future := by
  refine noneStranded_iff_without rfl ?_ ?_
  · intro other
    simp only [State.Waits, List.mem_cons, not_or]
    constructor
    · rintro ⟨pending, ⟨differs, exists_⟩, notAccepted⟩
      exact ⟨differs, pending, exists_, notAccepted⟩
    · rintro ⟨differs, pending, exists_, notAccepted⟩
      exact ⟨pending, ⟨differs, exists_⟩, notAccepted⟩
  · simp only [State.SomeWoken, List.mem_cons, not_or]

theorem noneStranded_polled_iff
    {future : Nat}
    (isAccepted : future ∈ state.accepted) :
    State.NoneStranded
        { state with woken := state.wokenWithout future } ↔
      state.NoneStrandedWithout future := by
  refine noneStranded_iff_without rfl ?_ ?_
  · intro other
    constructor
    · intro waits
      refine ⟨?_, waits⟩
      intro same
      subst same
      exact waits.2.2 isAccepted
    · exact fun waits => waits.2
  · simp only [State.SomeWoken, State.wokenWithout, List.mem_filter,
      decide_eq_true_eq, and_assoc]

/-- The wakers a release of the only live range takes. -/
theorem awakened_eq
    {queue : Queue.State Cell Nat}
    {limit : Nat}
    (pending : queue.pending = state.queue.pending.drop limit) :
    state.awakened queue =
      (state.queue.pending.take limit).filter (· ∉ state.dropped) := by
  have taken :
      state.queue.pending.take
          (state.queue.pending.length - queue.pending.length) =
        state.queue.pending.take limit := by
    rw [pending, List.length_drop, List.take_eq_take_iff]
    omega
  rw [State.awakened, taken]

theorem noneStranded_release_iff
    {queue : Queue.State Cell Nat}
    {i : Nat}
    (last :
      queue.liveStarts = [] ↔ state.queue.liveStarts.length = 1)
    (drained :
      queue.liveStarts = [] →
        queue.pending =
          state.queue.pending.drop (regionSize width N.size)) :
    State.NoneStranded {
        state with
        queue := queue
        woken := state.woken ++ state.awakened queue } ↔
      Sustained N state (.release i) := by
  by_cases noneLive : queue.liveStarts = []
  · have pending := drained noneLive
    have awakened := awakened_eq pending
    constructor
    · rintro holds _ ⟨future, inRest, waits⟩
      rw [← pending] at inRest
      rcases holds ⟨future, inRest, waits⟩ with live | ⟨other, member, lives⟩
      · exact absurd noneLive live
      · refine ⟨other, ?_, lives⟩
        rw [awakened] at member
        rcases List.mem_append.mp member with before | now
        · exact List.mem_append_left _ before
        · exact List.mem_append_right _ (List.mem_of_mem_filter now)
    · rintro sustained ⟨future, inRest, waits⟩
      simp only [pending] at inRest
      obtain ⟨other, member, lives⟩ :=
        sustained (last.mp noneLive) ⟨future, inRest, waits⟩
      refine Or.inr ⟨other, ?_, lives⟩
      rw [awakened]
      rcases List.mem_append.mp member with before | now
      · exact List.mem_append_left _ before
      · exact List.mem_append_right _
          (List.mem_filter.mpr ⟨now, decide_eq_true lives⟩)
  · constructor
    · intro _ only
      exact absurd (last.mpr only) noneLive
    · exact fun _ _ => Or.inl noneLive

/-- A step strands nobody exactly if it meets `Sustained`. -/
theorem noneStranded_iff_sustained
    {buffer : Nat → Cell}
    {action : Action Cell}
    (reachable : Reachable N buffer state)
    (noneStranded : state.NoneStranded)
    (taken : step N state action = some after) :
    after.NoneStranded ↔ Sustained N state action := by
  have queueReachable := reachable.queue
  cases action with
  | poll future write =>
      simp only [step] at taken
      split at taken
      · cases taken
      · split at taken
        · rename_i _ isAccepted
          cases taken
          rw [noneStranded_polled_iff isAccepted]
          exact ⟨fun holds _ => holds, fun holds => holds isAccepted⟩
        · rename_i _ notAccepted
          obtain ⟨⟨queue, refused⟩, called, shape⟩ :=
            Option.map_eq_some_iff.mp taken
          subst shape
          have live := (callQueue_live queueReachable called).2
          exact ⟨fun _ isAccepted => absurd isAccepted notAccepted,
            fun _ _ => Or.inl live⟩
  | bound i =>
      obtain ⟨queue, stepped, shape⟩ := Option.map_eq_some_iff.mp taken
      subst shape
      cases Queue.step_move stepped with
      | @setBounds _ handle found stage =>
          refine ⟨fun _ => trivial, fun _ waits => ?_⟩
          have starts :
              (Queue.setBounds width state.queue i handle).liveStarts =
                state.queue.liveStarts :=
            Queue.liveStarts_setBounds found stage
          rw [starts]
          exact noneStranded waits
  | release i =>
      obtain ⟨queue, called, shape⟩ := Option.map_eq_some_iff.mp taken
      subst shape
      obtain ⟨_, last, drained⟩ := releaseQueue_spec queueReachable called
      exact noneStranded_release_iff last drained
  | drop future =>
      cases taken
      exact noneStranded_drop_iff future

end Steps

/--
A run strands no existing future exactly if each of its steps meets
`Sustained`.
-/
theorem none_stranded_iff_sustained
    (N : BufferSize width)
    (buffer : Nat → Cell)
    (trace : List (State Cell × Action Cell))
    (state : State Cell)
    (run : Run N buffer trace state) :
    ((∀ taken ∈ trace, taken.1.NoneStranded) ∧ state.NoneStranded) ↔
      ∀ taken ∈ trace, Sustained N taken.1 taken.2 := by
  have initially : (initial buffer : State Cell).NoneStranded := by
    rintro ⟨future, waits, _⟩
    cases waits
  exact run.holds_iff_condition initially (fun _ => id)
    (fun reachable holds _ sustained taken =>
      (noneStranded_iff_sustained reachable holds taken).mpr sustained)
    (fun reachable holds _ taken afterHolds =>
      (noneStranded_iff_sustained reachable holds taken).mp afterHolds)
    (fun _ _ => trivial)

/-! ## The stranding run -/

/-- The poll of a future whose task is its number. -/
def pollTask (future : Nat) : Action (Option Nat) :=
  .poll future fun _ => some future

/-- A full buffer of 64 tasks in one range, and `waiting` futures refused. -/
def fullRun (waiting : Nat) : List (Action (Option Nat)) :=
  (List.range (64 + waiting)).map pollTask

/-- Nine futures wait, the first eight are dropped, the range is released. -/
def strandingRun : List (Action (Option Nat)) :=
  fullRun 9 ++
    (List.range 8).map (fun i => .drop (64 + i)) ++
    [.bound 0, .release 0]

/-- The ninth future waits for a wake-up nobody will give. -/
theorem strandingRun_strands_survivor :
    ∃ state : State (Option Nat),
      Reachable Queue.smallestBuffer (fun _ => none) state ∧
        state.Waits 72 ∧
        state.queue.liveStarts = [] ∧
        ¬ state.SomeWoken ∧
        ¬ state.NoneStranded := by
  have performed :
      ((TransitionSystem.execute (step Queue.smallestBuffer)
          (initial fun _ => none) strandingRun).map fun state =>
        (state.queue.liveStarts, state.woken, state.queue.pending,
          decide (72 ∈ state.dropped ∨ 72 ∈ state.accepted))) =
        some ([], [], [72], false) := by
    decide +kernel
  obtain ⟨state, reached, shape⟩ := Option.map_eq_some_iff.mp performed
  simp only [Prod.mk.injEq, decide_eq_false_iff_not, not_or] at shape
  obtain ⟨noneLive, noneWoken, pending, exists_, notAccepted⟩ := shape
  have waits : state.Waits 72 := by
    refine ⟨?_, exists_, notAccepted⟩
    rw [pending]
    exact List.mem_singleton_self 72
  have unheard : ¬ state.SomeWoken := by
    rintro ⟨future, member, _⟩
    rw [noneWoken] at member
    cases member
  refine ⟨state, TransitionSystem.Reachable.start.execute reached, waits,
    noneLive, unheard, fun holds => ?_⟩
  rcases holds ⟨72, waits⟩ with live | woken
  · exact live noneLive
  · exact unheard woken

/-- Three refused futures that nobody drops are all woken. -/
theorem none_stranded_iff_sustained_threeWaiters :
    ∃ (trace : List (State (Option Nat) × Action (Option Nat)))
      (state : State (Option Nat)),
      Run Queue.smallestBuffer (fun _ => none) trace state ∧
        state.woken = [64, 65, 66] ∧
        (((∀ taken ∈ trace, taken.1.NoneStranded) ∧ state.NoneStranded) ↔
          ∀ taken ∈ trace,
            Sustained Queue.smallestBuffer taken.1 taken.2) := by
  have performed :
      ((TransitionSystem.execute (step Queue.smallestBuffer)
          (initial fun _ => none)
          (fullRun 3 ++ [.bound 0, .release 0])).map State.woken) =
        some [64, 65, 66] := by
    decide +kernel
  obtain ⟨state, reached, woken⟩ := Option.map_eq_some_iff.mp performed
  obtain ⟨trace, run⟩ :=
    TransitionSystem.Run.of_execute TransitionSystem.Run.start reached
  exact ⟨trace, state, run, woken,
    none_stranded_iff_sustained Queue.smallestBuffer _ trace state run⟩

end StackQueue.Cancellation
