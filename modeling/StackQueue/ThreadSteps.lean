import StackQueue.TaskThreads

namespace StackQueue.TaskThreads

open Queue TaskQueue

/-!
# A step of a thread depends on few futures

`step_carries` goes through the actions: each of them reads and changes no
futures but those of `Touches` and wakes no wakers but those of `Notices`.  So
it makes the same step around any futures that agree on the former.
-/

variable {width : PointerWidth} {Task Value : Type}

section Steps

variable
    {program : Program Task Value}
    {N : BufferSize width}
    {thread : Thread Task Value}
    {futures others : Nat → Future Task Value}
    {notified : Nat → Bool}
    {polled : List Nat}
    {after : TaskQueue.State Task Value}

/-! ## Polls and drops -/

/-- A future that is polled or dropped is not within a poll already. -/
theorem outside_of_poll
    {future waker : Nat}
    (taken :
      TaskQueue.step program N (thread.within futures notified polled)
          (.poll future waker) =
        some after) :
    (thread.within futures notified polled).isPolling future = false := by
  rw [← Bool.not_eq_true]
  intro inside
  simp [TaskQueue.step, inside] at taken

/-- The same holds of a drop. -/
theorem outside_of_drop
    {future : Nat}
    (taken :
      TaskQueue.step program N (thread.within futures notified polled)
          (.drop future) =
        some after) :
    (thread.within futures notified polled).isPolling future = false := by
  rw [← Bool.not_eq_true]
  intro inside
  simp [TaskQueue.step, inside] at taken

/-- A poll looks at its own future alone. -/
theorem carries_poll
    {future waker : Nat}
    (same : others future = futures future)
    (taken :
      TaskQueue.step program N (thread.within futures notified polled)
          (.poll future waker) =
        some after) :
    ∃ effect,
      Carries program N thread futures others notified polled
        (.poll future waker) after effect := by
  have outsideHere := outside_of_poll taken
  have outside
      (otherNotified : Nat → Bool)
      (otherPolled : List Nat) :
      (thread.within others otherNotified otherPolled).isPolling future =
        false := by
    exact outsideHere
  cases step_move taken with
  | @call _ _ task holds noCall idle =>
      have holdsAlso := same.trans holds
      change thread.polling = none at noCall
      change thread.queue.owner = .idle at idle
      refine ⟨_, .of_poll none rfl ?_ ?_⟩
      · intro otherNotified otherPolled
        simp only [TaskQueue.step, outside, Bool.false_eq_true, if_false]
        simp only [Thread.within, holdsAlso, noCall, State.onQueue,
          TaskQueue.State.beginPoll, Queue.step, idle]
        rfl
      · exact fun _ _ shape => by cases shape
  | @ready _ _ receiver _ holds =>
      have holdsAlso := same.trans holds
      refine ⟨_, .of_poll (some (future, .received)) rfl ?_ ?_⟩
      · intro otherNotified otherPolled
        simp only [TaskQueue.step, outside, Bool.false_eq_true, if_false]
        simp only [Thread.within, holdsAlso]
        rfl
      · intro other item shape
        cases shape
        rfl
  | idlePoll holds =>
      have holdsAlso := same.trans holds
      refine ⟨_, .of_poll none rfl ?_ ?_⟩
      · intro otherNotified otherPolled
        simp only [TaskQueue.step, outside, Bool.false_eq_true, if_false]
        simp only [Thread.within, holdsAlso]
        rfl
      · exact fun _ _ shape => by cases shape

/-- The drop's `fetch_or` looks at its own future alone. -/
theorem carries_drop
    {future : Nat}
    (same : others future = futures future)
    (taken :
      TaskQueue.step program N (thread.within futures notified polled)
          (.drop future) =
        some after) :
    ∃ effect,
      Carries program N thread futures others notified polled
        (.drop future) after effect := by
  have outsideHere := outside_of_drop taken
  have outside
      (otherNotified : Nat → Bool)
      (otherPolled : List Nat) :
      (thread.within others otherNotified otherPolled).isPolling future =
        false := by
    exact outsideHere
  cases step_move taken with
  | @dropBatched _ receiver _ holds =>
      have holdsAlso := same.trans holds
      refine ⟨_, .of_change rfl ?_ rfl (by simp)⟩
      intro otherNotified otherPolled
      simp only [TaskQueue.step, outside, Bool.false_eq_true, if_false]
      simp only [Thread.within, holdsAlso]
      rfl
  | dropUnbatched _ holds =>
      have holdsAlso := same.trans holds
      refine ⟨_, .of_change rfl ?_ rfl (by simp)⟩
      intro otherNotified otherPolled
      simp only [TaskQueue.step, outside, Bool.false_eq_true, if_false]
      simp only [Thread.within, holdsAlso]
      rfl
  | dropReceived holds =>
      have holdsAlso := same.trans holds
      refine ⟨_, .of_change rfl ?_ rfl (by simp)⟩
      intro otherNotified otherPolled
      simp only [TaskQueue.step, outside, Bool.false_eq_true, if_false]
      simp only [Thread.within, holdsAlso]
      rfl

/-- The drop's loads look at its own future alone. -/
theorem carries_spin
    {future : Nat}
    (same : others future = futures future)
    (taken :
      TaskQueue.step program N (thread.within futures notified polled)
          (.spin future) =
        some after) :
    ∃ effect,
      Carries program N thread futures others notified polled
        (.spin future) after effect := by
  cases step_move taken with
  | @spin _ seen receiver holds waits =>
      have holdsAlso := same.trans holds
      refine ⟨_, .of_change rfl ?_ rfl (by simp)⟩
      intro otherNotified otherPolled
      simp only [TaskQueue.step, Thread.within, holdsAlso]
      rw [if_pos ((and_settingValue_eq_iff seen).mpr waits)]
      rfl
  | @dropReturn _ seen receiver holds clear =>
      have holdsAlso := same.trans holds
      have notSetting : ¬ seen &&& settingValue = settingValue := by
        rw [and_settingValue_eq_iff, clear]
        exact Bool.false_ne_true
      refine ⟨_, .of_change rfl ?_ rfl (by simp)⟩
      intro otherNotified otherPolled
      simp only [TaskQueue.step, Thread.within, holdsAlso]
      rw [if_neg notSetting]
      rfl

/-! ## The accesses of `enqueue` -/

/-- The end of a call looks at no future. -/
theorem carries_finish
    (taken :
      TaskQueue.step program N (thread.within futures notified polled)
          .finish =
        some after) :
    Carries program N thread futures others notified polled .finish after
      .none := by
  cases step_move taken with
  | refuse called at_ =>
      change thread.polling = _ at called
      change thread.queue.owner = _ at at_
      refine .of_none rfl ?_ (by simp)
      intro otherNotified otherPolled
      simp only [TaskQueue.step, Thread.within, called, at_,
        State.onQueue, Queue.step]
      rfl
  | join called at_ =>
      change thread.polling = _ at called
      change thread.queue.owner = _ at at_
      refine .of_none rfl ?_ (by simp)
      intro otherNotified otherPolled
      simp only [TaskQueue.step, Thread.within, called, at_,
        State.onQueue, Queue.step]
      rfl
  | spawn called at_ =>
      change thread.polling = _ at called
      change thread.queue.owner = _ at at_
      refine .of_none rfl ?_ (by simp)
      intro otherNotified otherPolled
      simp only [TaskQueue.step, Thread.within, called, at_,
        State.onQueue, Queue.step, State.setBatch]
      rfl

/-- The future that the owner's next access moves into its receiver. -/
def Thread.entering
    (thread : Thread Task Value) :
    Option (Nat × Future Task Value) :=
  match thread.queue.owner, thread.polling with
  | .writing _ index, some call =>
      some (call.future, .batched ⟨index, none, call.waker⟩)
  | _, _ => none

/-- Progress moves at most one future into its receiver. -/
theorem progress_within
    (thread : Thread Task Value)
    (futures : Nat → Future Task Value)
    (notified : Nat → Bool)
    (polled : List Nat) :
    (thread.within futures notified polled).progress =
      (Thread.of (thread.within futures notified polled).progress).within
        (replace thread.entering futures) notified polled := by
  cases at_ : thread.queue.owner <;> cases called : thread.polling <;>
    simp [TaskQueue.State.progress, Thread.within, Thread.of,
      Thread.entering, replace, at_, called]

/-- The future that moves into its receiver is the one being polled. -/
theorem Thread.entering_touches
    {index : Nat}
    {future : Future Task Value}
    (enters : thread.entering = some (index, future)) :
    Touches (thread.within futures notified polled) index
      (.owner : TaskQueue.Action Value) := by
  unfold Thread.entering at enters
  split at enters
  · rename_i call _ called
    cases enters
    exact ⟨call, called, rfl⟩
  · cases enters

/-- An access of the owner moves the future being polled, if any. -/
theorem carries_owner
    (taken :
      TaskQueue.step program N (thread.within futures notified polled)
          .owner =
        some after) :
    ∃ effect,
      Carries program N thread futures others notified polled .owner after
        effect := by
  cases step_move taken with
  | owner moved =>
      refine ⟨⟨thread.entering, none, []⟩, ?_, ?_, ?_, ?_, ?_, ?_⟩
      · rw [progress_within]
        rfl
      · intro otherNotified otherPolled
        have stepped := (Queue.Move.owner moved).taken
        change Queue.step N thread.queue .owner = _ at stepped
        change TaskQueue.State.onQueue N
          (thread.within others otherNotified otherPolled).progress
            .owner = _
        rw [progress_within, State.onQueue]
        change (Queue.step N thread.queue .owner).map _ = _
        rw [stepped]
        rfl
      · exact fun _ _ enters => Thread.entering_touches enters
      · exact fun _ _ shape => by cases shape
      · exact fun _ member => by cases member
      · exact fun _ _ isPoll => by cases isPoll

/-! ## The accesses of batches -/

/-- Bounding a range looks at no future. -/
theorem carries_assign
    {batch : Nat}
    (taken :
      TaskQueue.step program N (thread.within futures notified polled)
          (.assign batch) =
        some after) :
    Carries program N thread futures others notified polled
      (.assign batch) after .none := by
  cases step_move taken with
  | @assign _ old new range pending found unbounded foundAfter bounded =>
      change thread.batches _ = _ at pending
      change thread.queue.handles[_]? = _ at found
      change (Queue.setBounds width thread.queue batch old).handles[batch]?
        = _ at foundAfter
      refine .of_none rfl ?_ (by simp)
      intro otherNotified otherPolled
      simp only [TaskQueue.step, Thread.within, pending, State.onQueue,
        Queue.step, found, unbounded, Option.map_some, Option.bind_some,
        foundAfter, Handle.range?, bounded]
      rfl

/-- The next cell of a range is not in the futures. -/
theorem carries_visit
    {batch : Nat}
    (taken :
      TaskQueue.step program N (thread.within futures notified polled)
          (.visit batch) =
        some after) :
    Carries program N thread futures others notified polled
      (.visit batch) after .none := by
  cases step_move taken with
  | visitMap visiting =>
      change thread.batches _ = _ at visiting
      refine .of_none rfl ?_ (by simp)
      intro otherNotified otherPolled
      simp only [TaskQueue.step, Thread.within, visiting]
      rfl
  | visitDrop visiting =>
      change thread.batches _ = _ at visiting
      refine .of_none rfl ?_ (by simp)
      intro otherNotified otherPolled
      simp only [TaskQueue.step, Thread.within, visiting] at taken ⊢
      split at taken
      · rename_i needed
        rw [if_pos needed]
        rfl
      · cases taken

/-- Releasing a range looks at no future. -/
theorem carries_release
    {batch : Nat}
    (taken :
      TaskQueue.step program N (thread.within futures notified polled)
          (.release batch) =
        some after) :
    Carries program N thread futures others notified polled
      (.release batch) after .none := by
  cases step_move taken with
  | release visiting done found bounded =>
      change thread.batches _ = _ at visiting
      change thread.queue.handles[_]? = _ at found
      refine .of_none rfl ?_ (by simp)
      intro otherNotified otherPolled
      simp only [TaskQueue.step, Thread.within, visiting, done, if_true,
        State.onQueue, State.setBatch, Queue.step, found, bounded]
      rfl

/-- The wake loop marks the future whose waker it takes. -/
theorem carries_steal
    {batch : Nat}
    {retry : Bool}
    (taken :
      TaskQueue.step program N (thread.within futures notified polled)
          (.steal batch retry) =
        some after) :
    ∃ effect,
      Carries program N thread futures others notified polled
        (.steal batch retry) after effect := by
  cases step_move taken with
  | retry releasing =>
      change thread.batches _ = _ at releasing
      refine ⟨_, .of_none rfl ?_ (by simp)⟩
      intro otherNotified otherPolled
      simp only [TaskQueue.step, Thread.within, releasing, State.onQueue,
        Option.map_eq_some_iff] at taken ⊢
      obtain ⟨queue, stepped, shape⟩ := taken
      refine ⟨queue, stepped, ?_⟩
      injection shape with same
      rw [same]
      rfl
  | steal releasing found draining =>
      change thread.batches _ = _ at releasing
      change thread.queue.handles[_]? = _ at found
      refine ⟨⟨none, thread.queue.pending.head?.map (·, true), []⟩,
        ?_, ?_, ?_, ?_, ?_, ?_⟩
      · cases waiting : thread.queue.pending <;>
          simp [State.notify, Thread.within, Effect.apply, replace,
            Thread.of, waiting]
      · intro otherNotified otherPolled
        simp only [TaskQueue.step, Thread.within, releasing,
          State.onQueue, State.notify, Queue.step, found, draining]
        cases waiting : thread.queue.pending <;>
          simp [Effect.apply, replace, Thread.of, Thread.within]
      · exact fun _ _ shape => by cases shape
      · intro index item isHead
        obtain ⟨first, isFirst, same⟩ := Option.map_eq_some_iff.mp isHead
        cases same
        exact isFirst
      · exact fun _ member => by cases member
      · exact fun _ _ isPoll => by cases isPoll

/-- The end of a batch looks at no future. -/
theorem carries_complete
    {batch : Nat}
    (taken :
      TaskQueue.step program N (thread.within futures notified polled)
          (.complete batch) =
        some after) :
    Carries program N thread futures others notified polled
      (.complete batch) after .none := by
  cases step_move taken with
  | complete releasing released =>
      change thread.batches _ = _ at releasing
      refine .of_none rfl ?_ (by simp)
      intro otherNotified otherPolled
      change (thread.within others otherNotified otherPolled).hasReleased
        batch = true at released
      simp only [TaskQueue.step, released, if_true]
      simp only [Thread.within, releasing]
      rfl

/-- The resolver reads and marks the future its cell points at. -/
theorem carries_resolve
    {batch : Nat}
    (reads :
      ∀ future,
        Touches (thread.within futures notified polled) future
          (.resolve batch : TaskQueue.Action Value) →
        others future = futures future)
    (taken :
      TaskQueue.step program N (thread.within futures notified polled)
          (.resolve batch) =
        some after) :
    ∃ effect,
      Carries program N thread futures others notified polled
        (.resolve batch) after effect := by
  cases step_move taken with
  | @resolve _ cell method todo value point _ resolving moved =>
      change thread.batches _ = _ at resolving
      have touches
          {future : Nat}
          (pointer : (thread.queue.buffer cell).rx = some future) :
          Touches (thread.within futures notified polled) future
            (.resolve batch : TaskQueue.Action Value) :=
        ⟨method, todo, cell, value, point, resolving, pointer⟩
      cases moved with
      | setting alive =>
          change (thread.queue.buffer cell).state &&& rxDropped = 0
            at alive
          refine ⟨_, .of_none rfl ?_ (by simp)⟩
          intro otherNotified otherPolled
          simp only [TaskQueue.step, Thread.within, resolving,
            resolveUnchecked, alive, if_true]
          rfl
      | discard dropped =>
          change (thread.queue.buffer cell).state &&& rxDropped ≠ 0
            at dropped
          refine ⟨_, .of_none rfl ?_ (by simp)⟩
          intro otherNotified otherPolled
          simp only [TaskQueue.step, Thread.within, resolving,
            resolveUnchecked, dropped, if_false]
          rfl
      | @write rx pointer =>
          change (thread.queue.buffer cell).rx = some rx at pointer
          have same := reads rx (touches pointer)
          refine ⟨_, .of_change rfl ?_ (touches pointer) (by simp)⟩
          intro otherNotified otherPolled
          simp only [TaskQueue.step, Thread.within, resolving,
            resolveUnchecked, pointer, ← same]
          rfl
      | @wake rx pointer =>
          change (thread.queue.buffer cell).rx = some rx at pointer
          have same := reads rx (touches pointer)
          refine ⟨⟨none,
            (futures rx).receiver?.map fun receiver =>
              (receiver.waker, true), []⟩, ?_, ?_, ?_, ?_, ?_, ?_⟩
          · cases holds : (futures rx).receiver? <;>
              simp [State.notify, Thread.within, Effect.apply, replace,
                Thread.of, State.setBatch, State.mark, holds]
          · intro otherNotified otherPolled
            simp only [TaskQueue.step, Thread.within, resolving,
              resolveUnchecked, pointer, same]
            cases holds : (futures rx).receiver? <;> rfl
          · exact fun _ _ shape => by cases shape
          · intro index item wakes
            obtain ⟨receiver, holds, isWaker⟩ :=
              Option.map_eq_some_iff.mp wakes
            cases isWaker
            exact ⟨rx, receiver, touches pointer, holds, rfl⟩
          · exact fun _ member => by cases member
          · exact fun _ _ isPoll => by cases isPoll
      | fetchXor =>
          refine ⟨_, .of_none rfl ?_ (by simp)⟩
          intro otherNotified otherPolled
          simp only [TaskQueue.step, Thread.within, resolving,
            resolveUnchecked]
          rfl

/-- A step has the same effect on futures that agree where it looks. -/
theorem step_carries
    {action : TaskQueue.Action Value}
    (reads :
      ∀ future,
        Touches (thread.within futures notified polled) future action →
        others future = futures future)
    (taken :
      TaskQueue.step program N (thread.within futures notified polled)
          action =
        some after) :
    ∃ effect,
      Carries program N thread futures others notified polled action
        after effect := by
  cases action with
  | poll future waker => exact carries_poll (reads future rfl) taken
  | owner => exact carries_owner taken
  | finish => exact ⟨_, carries_finish taken⟩
  | assign batch => exact ⟨_, carries_assign taken⟩
  | invoke batch method =>
      cases step_move taken with
      | invoke assigned =>
          change thread.batches _ = _ at assigned
          refine ⟨_, .of_none rfl ?_ (by simp)⟩
          intro otherNotified otherPolled
          simp only [TaskQueue.step, Thread.within, assigned]
          rfl
  | visit batch => exact ⟨_, carries_visit taken⟩
  | visitWith batch value =>
      cases step_move taken with
      | visitWith visiting =>
          change thread.batches _ = _ at visiting
          refine ⟨_, .of_none rfl ?_ (by simp)⟩
          intro otherNotified otherPolled
          simp only [TaskQueue.step, Thread.within, visiting]
          rfl
  | resolve batch => exact carries_resolve reads taken
  | release batch => exact ⟨_, carries_release taken⟩
  | steal batch retry => exact carries_steal taken
  | complete batch => exact ⟨_, carries_complete taken⟩
  | drop future => exact carries_drop (reads future rfl) taken
  | spin future => exact carries_spin (reads future rfl) taken

end Steps

end StackQueue.TaskThreads
