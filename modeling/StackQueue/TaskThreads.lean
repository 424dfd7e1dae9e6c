import StackQueue.IteratorAnswers

namespace StackQueue.TaskThreads

open Queue TaskQueue

/-!
# `BatchedTask` futures over the queues of several threads

Every thread has a queue of its own, and a future that was refused by one may
be pushed to another by its next poll.  A `Thread` is the queue of one thread
with its batches, a `TaskQueue.State` without the futures; the machine steps
the thread that an action concerns, around the futures that all threads share.

An action on a future that a queue has accepted concerns that queue, whatever
thread performs it: `home` is the queue that the receiver's pointer leads to.
-/

variable {width : PointerWidth} {Task Value : Type}

/-- The queue of one thread with its batches. -/
structure Thread (Task Value : Type) where
  queue : Queue.State (TaskRef Task) Nat
  polling : Option (Call Task)
  batches : Nat → Batch Value
  enqueued : List (Nat × Task)
  resolutions : Nat → Resolution
  passed : List (Nat × Option Value)
  stored : List (Nat × Option Value)
  returned : List (Nat × Option Value)
  applied : List (Nat × Option Task)
  destroyed : List (Nat × Option Value)

/-- The threads, and the futures that they share. -/
structure State (Task Value : Type) where
  threads : Nat → Thread Task Value
  futures : Nat → Future Task Value
  /-- Whether a waker has been woken since the latest poll with it began. -/
  notified : Nat → Bool
  /-- The futures polled so far. -/
  polled : List Nat
  /-- The thread whose queue a future was polled on last. -/
  home : Nat → Option Nat

/-- The queue of a thread, without the futures around it. -/
def Thread.of (state : TaskQueue.State Task Value) :
    Thread Task Value where
  queue := state.queue
  polling := state.polling
  batches := state.batches
  enqueued := state.enqueued
  resolutions := state.resolutions
  passed := state.passed
  stored := state.stored
  returned := state.returned
  applied := state.applied
  destroyed := state.destroyed

/-- The queue of a thread, with futures around it. -/
def Thread.within
    (thread : Thread Task Value)
    (futures : Nat → Future Task Value)
    (notified : Nat → Bool)
    (polled : List Nat) :
    TaskQueue.State Task Value where
  queue := thread.queue
  futures := futures
  polling := thread.polling
  batches := thread.batches
  notified := notified
  polled := polled
  enqueued := thread.enqueued
  resolutions := thread.resolutions
  passed := thread.passed
  stored := thread.stored
  returned := thread.returned
  applied := thread.applied
  destroyed := thread.destroyed

/-- Empty queues, and futures that hold the tasks given to them. -/
def initial (task : Nat → Task) : State Task Value where
  threads := fun _ => .of (TaskQueue.initial task)
  futures := fun future => .unbatched (task future)
  notified := fun _ => false
  polled := []
  home := fun _ => none

namespace State

/-- A thread's queue with the futures. -/
def view (state : State Task Value) (thread : Nat) :
    TaskQueue.State Task Value :=
  (state.threads thread).within state.futures state.notified state.polled

/-- A poll of the future is within `enqueue`. -/
def isBorrowed (state : State Task Value) (future : Nat) : Bool :=
  match state.home future with
  | some thread => (state.view thread).isPolling future
  | none => false

/-- The future still has its task. -/
def isUnbatched (state : State Task Value) (future : Nat) : Bool :=
  match state.futures future with
  | .unbatched _ => true
  | _ => false

/-- The action concerns the queue of the thread. -/
def permits (state : State Task Value) (thread : Nat) :
    TaskQueue.Action Value → Bool
  | .poll future _ =>
      !state.isBorrowed future &&
        (state.isUnbatched future || state.home future = some thread)
  | .drop future =>
      !state.isBorrowed future &&
        (state.home future = none || state.home future = some thread)
  | .spin future => state.home future = some thread
  | _ => true

/-- The polled future has come to the thread. -/
def comeTo
    (home : Nat → Option Nat)
    (thread : Nat) :
    TaskQueue.Action Value → Nat → Option Nat
  | .poll future _ => Function.update home future (some thread)
  | _ => home

/-- Put back what a step of one thread has made of it and of the futures. -/
def put
    (state : State Task Value)
    (thread : Nat)
    (action : TaskQueue.Action Value)
    (after : TaskQueue.State Task Value) :
    State Task Value where
  threads := Function.update state.threads thread (.of after)
  futures := after.futures
  notified := after.notified
  polled := after.polled
  home := comeTo state.home thread action

end State

/-- The effect of an action on a thread, `none` when it is not enabled. -/
def step
    (program : Program Task Value)
    (N : BufferSize width)
    (state : State Task Value) :
    Nat × TaskQueue.Action Value → Option (State Task Value)
  | (thread, action) =>
      if state.permits thread action then
        (TaskQueue.step program N (state.view thread) action).map
          (state.put thread action)
      else
        none

/-- Futures keep to their own wakers, and batches to a rule of their own. -/
def Follows
    (rule : TaskQueue.Action Value → Prop)
    (state : TaskQueue.State Task Value)
    (action : TaskQueue.Action Value) :
    Prop :=
  OwnWaker state action ∧ rule action

/-- The same on any of the threads. -/
def FollowsOn
    (rule : TaskQueue.Action Value → Prop)
    (state : State Task Value)
    (taken : Nat × TaskQueue.Action Value) :
    Prop :=
  Follows rule (state.view taken.1) taken.2

/-- The states of the runs of all threads. -/
abbrev Reachable
    (program : Program Task Value)
    (N : BufferSize width)
    (rule : TaskQueue.Action Value → Prop)
    (task : Nat → Task)
    (state : State Task Value) :
    Prop :=
  TransitionSystem.Reachable (step program N) (FollowsOn rule)
    (initial task) state

/-! ## What a step of a thread does to the futures -/

/-- Replace at most one item. -/
def replace {Item : Type} :
    Option (Nat × Item) → (Nat → Item) → Nat → Item
  | some (index, item), items => Function.update items index item
  | none, items => items

/-- What a step makes of the futures around a thread. -/
structure Effect (Task Value : Type) where
  future : Option (Nat × Future Task Value)
  waker : Option (Nat × Bool)
  began : List Nat

/-- The futures stay as they are. -/
def Effect.none : Effect Task Value :=
  ⟨.none, .none, []⟩

/-- One future changes. -/
def Effect.change
    (index : Nat)
    (future : Future Task Value) :
    Effect Task Value :=
  ⟨some (index, future), .none, []⟩

/-- The thread with futures that a step has had its effect on. -/
def Effect.apply
    (effect : Effect Task Value)
    (thread : Thread Task Value)
    (futures : Nat → Future Task Value)
    (notified : Nat → Bool)
    (polled : List Nat) :
    TaskQueue.State Task Value :=
  thread.within (replace effect.future futures)
    (replace effect.waker notified) (effect.began ++ polled)

/-- The futures whose state an action reads or changes. -/
def Touches
    (state : TaskQueue.State Task Value)
    (future : Nat) :
    TaskQueue.Action Value → Prop
  | .poll other _ | .drop other | .spin other => other = future
  | .owner =>
      ∃ call, state.polling = some call ∧ call.future = future
  | .resolve batch =>
      ∃ method todo cell value point,
        state.batches batch = .resolving method todo cell value point ∧
          (state.queue.buffer cell).rx = some future
  | _ => False

/-- The wakers that an action wakes, or begins a poll with. -/
def Notices
    (state : TaskQueue.State Task Value)
    (waker : Nat) :
    TaskQueue.Action Value → Prop
  | .poll _ other => other = waker
  | .resolve batch =>
      ∃ future receiver,
        Touches state future (.resolve batch : TaskQueue.Action Value) ∧
          (state.futures future).receiver? = some receiver ∧
          receiver.waker = waker
  | .steal _ _ => state.queue.pending.head? = some waker
  | _ => False

/--
A step has an effect on the futures around its thread, and the same one on
others that agree with them where it looks.
-/
structure Carries
    (program : Program Task Value)
    (N : BufferSize width)
    (thread : Thread Task Value)
    (futures others : Nat → Future Task Value)
    (notified : Nat → Bool)
    (polled : List Nat)
    (action : TaskQueue.Action Value)
    (after : TaskQueue.State Task Value)
    (effect : Effect Task Value) : Prop where
  result : after = effect.apply (.of after) futures notified polled
  also :
    ∀ otherNotified otherPolled,
      TaskQueue.step program N
          (thread.within others otherNotified otherPolled) action =
        some (effect.apply (.of after) others otherNotified otherPolled)
  touched :
    ∀ index item,
      effect.future = some (index, item) →
      Touches (thread.within futures notified polled) index action
  noticed :
    ∀ index item,
      effect.waker = some (index, item) →
      Notices (thread.within futures notified polled) index action
  began :
    ∀ index ∈ effect.began, ∃ waker, action = .poll index waker
  begins :
    ∀ index waker,
      action = .poll index waker →
      effect.waker = some (waker, false) ∧ effect.began = [index]

section Steps

variable
    {program : Program Task Value}
    {N : BufferSize width}
    {thread : Thread Task Value}
    {futures others : Nat → Future Task Value}
    {notified : Nat → Bool}
    {polled : List Nat}
    {action : TaskQueue.Action Value}
    {after : TaskQueue.State Task Value}

/-- A step that leaves the futures alone. -/
theorem Carries.of_none
    (result :
      after = (Thread.of after).within futures notified polled)
    (also :
      ∀ otherNotified otherPolled,
        TaskQueue.step program N
            (thread.within others otherNotified otherPolled) action =
          some
            ((Thread.of after).within others otherNotified otherPolled))
    (notPoll : ∀ index waker, action ≠ .poll index waker) :
    Carries program N thread futures others notified polled action after
      .none where
  result := result
  also := also
  touched := fun _ _ shape => by cases shape
  noticed := fun _ _ shape => by cases shape
  began := fun _ member => by cases member
  begins := fun index waker isPoll => (notPoll index waker isPoll).elim

/-- A step that changes one future. -/
theorem Carries.of_change
    {index : Nat}
    {future : Future Task Value}
    (result :
      after =
        (Thread.of after).within (Function.update futures index future)
          notified polled)
    (also :
      ∀ otherNotified otherPolled,
        TaskQueue.step program N
            (thread.within others otherNotified otherPolled) action =
          some
            ((Thread.of after).within
              (Function.update others index future) otherNotified
              otherPolled))
    (touches :
      Touches (thread.within futures notified polled) index action)
    (notPoll : ∀ index waker, action ≠ .poll index waker) :
    Carries program N thread futures others notified polled action after
      (.change index future) where
  result := result
  also := also
  touched := by
    intro other item shape
    cases shape
    exact touches
  noticed := fun _ _ shape => by cases shape
  began := fun _ member => by cases member
  begins := fun index waker isPoll => (notPoll index waker isPoll).elim

/-- A poll begins with its own future and its waker. -/
theorem Carries.of_poll
    {index waker : Nat}
    (change : Option (Nat × Future Task Value))
    (result :
      after =
        (Thread.of after).within (replace change futures)
          (Function.update notified waker false) (index :: polled))
    (also :
      ∀ otherNotified otherPolled,
        TaskQueue.step program N
            (thread.within others otherNotified otherPolled)
            (.poll index waker) =
          some
            ((Thread.of after).within (replace change others)
              (Function.update otherNotified waker false)
              (index :: otherPolled)))
    (touched : ∀ other item, change = some (other, item) → index = other) :
    Carries program N thread futures others notified polled
      (.poll index waker) after
      ⟨change, some (waker, false), [index]⟩ where
  result := result
  also := also
  touched := touched
  noticed := by
    intro other item shape
    cases shape
    rfl
  began := by
    intro other member
    rw [List.mem_singleton.mp member]
    exact ⟨waker, rfl⟩
  begins := by
    intro other otherWaker isPoll
    cases isPoll
    exact ⟨rfl, rfl⟩

end Steps

end StackQueue.TaskThreads
