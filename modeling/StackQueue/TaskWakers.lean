import StackQueue.TaskValues

namespace StackQueue.TaskQueue

open Queue

/-!
# Wakers

Each future has a waker of its own and, after its first poll, is polled only
when that waker has been woken since its previous poll began.  Then a waker
waits in `pending` only for a future whose task is still to be enqueued, and a
future in the `Batched` state is woken by its own resolver alone.
-/

variable {Task Value : Type}

/-- A future is polled with its own waker, and only when it was woken. -/
def OwnWaker (state : State Task Value) : Action Value → Prop
  | .poll future waker =>
      waker = future ∧
        (future ∈ state.polled → state.notified future = true)
  | _ => True

instance (state : State Task Value) :
    (action : Action Value) → Decidable (OwnWaker state action)
  | .poll future waker =>
      inferInstanceAs
        (Decidable
          (waker = future ∧
            (future ∈ state.polled → state.notified future = true)))
  | .owner | .finish | .assign _ | .invoke _ _ | .visit _
  | .visitWith _ _ | .resolve _ | .release _ | .steal _ _ | .complete _
  | .drop _ | .spin _ =>
      .isTrue trivial

/-- The future has no task in the queue yet, or it is gone. -/
def Future.isOutside : Future Task Value → Bool
  | .unbatched _ | .dropped => true
  | .batched _ | .received | .dropping _ _ => false

/-- The wakers in `pending`, in the receivers and in the poll in progress. -/
structure WakerInvariant (state : State Task Value) : Prop where
  call :
    ∀ call,
      state.polling = some call →
      call.waker = call.future ∧
        call.future ∈ state.polled ∧
        call.future ∉ state.queue.pending ∧
        (state.notified call.future = true →
          (state.resolutions call.future).isWoken = true)
  receivers :
    ∀ future receiver,
      (state.futures future).receiver? = some receiver →
      receiver.waker = future
  pending :
    ∀ future ∈ state.queue.pending,
      future ∈ state.polled ∧
        state.notified future = false ∧
        (state.futures future).isOutside = true
  once :
    state.queue.pending.Nodup
  /-- A future in the `Batched` state has been woken by its resolver only. -/
  batched :
    ∀ future receiver,
      state.futures future = .batched receiver →
      future ∈ state.polled ∧
        (state.notified future = true →
          (state.resolutions future).isWoken = true)

namespace WakerInvariant

variable
    {width : PointerWidth}
    {program : Program Task Value}
    {N : BufferSize width}
    {task : Nat → Task}
    {state after : State Task Value}

theorem initial :
    WakerInvariant (TaskQueue.initial task : State Task Value) := by
  constructor <;> simp [TaskQueue.initial, Queue.initial, Future.receiver?]

/-- A future outside the queue has no receiver. -/
theorem notMem_pending
    (invariant : WakerInvariant state)
    {future : Nat}
    (inside : (state.futures future).isOutside = false) :
    future ∉ state.queue.pending := by
  intro member
  rw [(invariant.pending future member).2.2] at inside
  cases inside

/-- A future that may be polled does not wait in `pending`. -/
theorem notMem_of_ownWaker
    (invariant : WakerInvariant state)
    {future waker : Nat}
    (ownWaker : OwnWaker state (.poll future waker)) :
    future ∉ state.queue.pending := by
  intro member
  obtain ⟨polled, notNotified, _⟩ := invariant.pending future member
  rw [ownWaker.2 polled] at notNotified
  cases notNotified

/-- With its own waker, a batched future is polled after its wake-up. -/
theorem pollsWoken
    (invariant : WakerInvariant state)
    {action : Action Value}
    (ownWaker : OwnWaker state action) :
    PollsWoken state action := by
  cases action with
  | poll future waker =>
      intro receiver holds
      obtain ⟨polled, woken⟩ := invariant.batched future receiver holds
      exact woken (ownWaker.2 polled)
  | _ => trivial

/-- A step that wakes nobody and begins no poll. -/
theorem of_frame
    (invariant : WakerInvariant state)
    (pending : after.queue.pending = state.queue.pending)
    (notified : after.notified = state.notified)
    (polled : after.polled = state.polled)
    (polling :
      ∀ call, after.polling = some call → state.polling = some call)
    (woken :
      ∀ future,
        (state.resolutions future).isWoken = true →
        (after.resolutions future).isWoken = true)
    (receivers :
      ∀ future receiver,
        (after.futures future).receiver? = some receiver →
        receiver.waker = future)
    (outside :
      ∀ future ∈ state.queue.pending,
        (state.futures future).isOutside = true →
        (after.futures future).isOutside = true)
    (batched :
      ∀ future receiver,
        after.futures future = .batched receiver →
        (∃ old, state.futures future = .batched old) ∨
          ∃ call, state.polling = some call ∧ call.future = future) :
    WakerInvariant after := by
  constructor
  case call =>
    rw [polled, pending, notified]
    intro call called
    obtain ⟨own, isPolled, notPending, wakes⟩ :=
      invariant.call call (polling call called)
    exact ⟨own, isPolled, notPending,
      fun isNotified => woken _ (wakes isNotified)⟩
  case receivers =>
    exact receivers
  case pending =>
    rw [pending, polled, notified]
    intro future member
    obtain ⟨isPolled, notNotified, isOutside⟩ :=
      invariant.pending future member
    exact ⟨isPolled, notNotified, outside future member isOutside⟩
  case once =>
    rw [pending]
    exact invariant.once
  case batched =>
    rw [polled, notified]
    intro future receiver holds
    rcases batched future receiver holds with
      ⟨old, wasBatched⟩ | ⟨call, called, isCall⟩
    · obtain ⟨isPolled, wakes⟩ :=
        invariant.batched future old wasBatched
      exact ⟨isPolled, fun isNotified => woken _ (wakes isNotified)⟩
    · obtain ⟨_, isPolled, _, wakes⟩ := invariant.call call called
      rw [isCall] at isPolled wakes
      exact ⟨isPolled, fun isNotified => woken _ (wakes isNotified)⟩

/-- A step that leaves the futures alone as well. -/
theorem of_same
    (invariant : WakerInvariant state)
    (pending : after.queue.pending = state.queue.pending)
    (notified : after.notified = state.notified)
    (polled : after.polled = state.polled)
    (polling : after.polling = state.polling)
    (woken :
      ∀ future,
        (state.resolutions future).isWoken = true →
        (after.resolutions future).isWoken = true)
    (futures : after.futures = state.futures) :
    WakerInvariant after := by
  refine invariant.of_frame pending notified polled
    (fun _ called => polling ▸ called) woken ?_ ?_ ?_
  · rw [futures]
    exact invariant.receivers
  · rw [futures]
    exact fun _ _ => id
  · rw [futures]
    exact fun _ receiver holds => Or.inl ⟨receiver, holds⟩

/-- A step of one future that is in the queue, or leaves it for good. -/
theorem of_future
    (invariant : WakerInvariant state)
    {future : Nat}
    {stage : Future Task Value}
    (futures :
      after.futures = Function.update state.futures future stage)
    (outside :
      (state.futures future).isOutside = true →
      future ∈ state.queue.pending →
      stage.isOutside = true)
    (receivers :
      ∀ receiver,
        stage.receiver? = some receiver →
        receiver.waker = future)
    (batched :
      ∀ receiver,
        stage = .batched receiver →
        (∃ old, state.futures future = .batched old) ∨
          ∃ call, state.polling = some call ∧ call.future = future)
    (pending : after.queue.pending = state.queue.pending)
    (notified : after.notified = state.notified)
    (polled : after.polled = state.polled)
    (polling : after.polling = state.polling)
    (resolutions :
      ∀ future,
        (state.resolutions future).isWoken = true →
        (after.resolutions future).isWoken = true) :
    WakerInvariant after := by
  refine invariant.of_frame pending notified polled
    (fun _ called => polling ▸ called) resolutions ?_ ?_ ?_
  · intro other receiver holds
    by_cases same : other = future
    · rw [same] at holds ⊢
      rw [futures, Function.update_self] at holds
      exact receivers receiver holds
    · rw [futures, Function.update_of_ne same] at holds
      exact invariant.receivers other receiver holds
  · intro other member isOutside
    by_cases same : other = future
    · rw [same] at member isOutside ⊢
      rw [futures, Function.update_self]
      exact outside isOutside member
    · rw [futures, Function.update_of_ne same]
      exact isOutside
  · intro other receiver holds
    by_cases same : other = future
    · rw [same] at holds ⊢
      rw [futures, Function.update_self] at holds
      exact batched receiver holds
    · rw [futures, Function.update_of_ne same] at holds
      exact Or.inl ⟨receiver, holds⟩

/-- A poll begins. -/
theorem beginPoll
    (invariant : WakerInvariant state)
    (future waker : Nat) :
    WakerInvariant (state.beginPoll future waker) := by
  have wasNotified
      {other : Nat}
      (notified :
        (state.beginPoll future waker).notified other = true) :
      state.notified other = true := by
    by_cases same : other = waker
    · simp [State.beginPoll, same] at notified
    · simpa [State.beginPoll, same] using notified
  constructor
  case call =>
    intro call called
    obtain ⟨own, isPolled, notPending, wakes⟩ :=
      invariant.call call called
    exact ⟨own, List.mem_cons_of_mem _ isPolled, notPending,
      fun notified => wakes (wasNotified notified)⟩
  case receivers =>
    exact invariant.receivers
  case pending =>
    intro other member
    obtain ⟨isPolled, notNotified, isOutside⟩ :=
      invariant.pending other member
    refine ⟨List.mem_cons_of_mem _ isPolled, ?_, isOutside⟩
    rw [← Bool.not_eq_true]
    intro notified
    rw [wasNotified notified] at notNotified
    cases notNotified
  case once =>
    exact invariant.once
  case batched =>
    intro other receiver holds
    obtain ⟨isPolled, wakes⟩ := invariant.batched other receiver holds
    exact ⟨List.mem_cons_of_mem _ isPolled,
      fun notified => wakes (wasNotified notified)⟩

/-- An unbatched future enters `enqueue`. -/
theorem call_
    (invariant : WakerInvariant state)
    {future waker : Nat}
    (ownWaker : OwnWaker state (.poll future waker))
    {call : Call Task}
    (isCall : call.future = future ∧ call.waker = waker)
    (pending : after.queue.pending = state.queue.pending)
    (notified :
      after.notified = (state.beginPoll future waker).notified)
    (polled : after.polled = (state.beginPoll future waker).polled)
    (polling : after.polling = some call)
    (resolutions : after.resolutions = state.resolutions)
    (futures : after.futures = state.futures) :
    WakerInvariant after := by
  have begun := invariant.beginPoll future waker
  obtain ⟨isFuture, isWaker⟩ := isCall
  constructor
  case call =>
    rw [polling, polled, pending, notified]
    intro other called
    cases called
    rw [isFuture, isWaker, ownWaker.1]
    refine ⟨rfl, List.mem_cons_self, ?_, ?_⟩
    · exact invariant.notMem_of_ownWaker ownWaker
    · simp [State.beginPoll]
  case receivers =>
    rw [futures]
    exact invariant.receivers
  case pending =>
    rw [pending, polled, notified, futures]
    exact begun.pending
  case once =>
    rw [pending]
    exact invariant.once
  case batched =>
    rw [futures, polled, notified, resolutions]
    exact begun.batched

/-- A future that does not wait in `pending` is woken by its resolver. -/
theorem notify
    (invariant : WakerInvariant state)
    {future : Nat}
    (notPending : future ∉ state.queue.pending)
    (woken : (state.resolutions future).isWoken = true) :
    WakerInvariant (state.notify (some future)) := by
  have wakes
      {other : Nat}
      (before :
        state.notified other = true →
        (state.resolutions other).isWoken = true)
      (notified :
        (state.notify (some future)).notified other = true) :
      (state.resolutions other).isWoken = true := by
    by_cases same : other = future
    · rw [same]
      exact woken
    · apply before
      simpa [State.notify, same] using notified
  constructor
  case call =>
    intro call called
    obtain ⟨own, isPolled, waits, before⟩ := invariant.call call called
    exact ⟨own, isPolled, waits, wakes before⟩
  case receivers =>
    exact invariant.receivers
  case pending =>
    intro other member
    obtain ⟨isPolled, notNotified, isOutside⟩ :=
      invariant.pending other member
    have differs : other ≠ future := by
      intro same
      exact notPending (same ▸ member)
    refine ⟨isPolled, ?_, isOutside⟩
    rw [← notNotified]
    exact Function.update_of_ne differs _ _
  case once =>
    exact invariant.once
  case batched =>
    intro other receiver holds
    obtain ⟨isPolled, before⟩ := invariant.batched other receiver holds
    exact ⟨isPolled, wakes before⟩

/-- The wake loop takes the first waker out of `pending`. -/
theorem drain
    (invariant : WakerInvariant state)
    {future : Nat}
    {rest : List Nat}
    (waiting : state.queue.pending = future :: rest)
    (pending : after.queue.pending = rest)
    (notified :
      after.notified = Function.update state.notified future true)
    (polled : after.polled = state.polled)
    (polling : after.polling = state.polling)
    (resolutions : after.resolutions = state.resolutions)
    (futures : after.futures = state.futures) :
    WakerInvariant after := by
  have isHead : future ∈ state.queue.pending := by simp [waiting]
  have isOutside := (invariant.pending future isHead).2.2
  have once := invariant.once
  rw [waiting, List.nodup_cons] at once
  obtain ⟨notInRest, restOnce⟩ := once
  have inPending {other : Nat} (member : other ∈ rest) :
      other ∈ state.queue.pending := by
    rw [waiting]
    exact List.mem_cons_of_mem _ member
  constructor
  case call =>
    rw [polling, polled, pending, notified, resolutions]
    intro call called
    obtain ⟨own, isPolled, notPending, wakes⟩ :=
      invariant.call call called
    have differs : call.future ≠ future := by
      intro same
      exact notPending (same ▸ isHead)
    rw [Function.update_of_ne differs]
    exact ⟨own, isPolled, fun member => notPending (inPending member),
      wakes⟩
  case receivers =>
    rw [futures]
    exact invariant.receivers
  case pending =>
    rw [pending, polled, notified, futures]
    intro other member
    have differs : other ≠ future := by
      intro same
      exact notInRest (same ▸ member)
    rw [Function.update_of_ne differs]
    exact invariant.pending other (inPending member)
  case once =>
    rw [pending]
    exact restOnce
  case batched =>
    rw [futures, polled, notified, resolutions]
    intro other receiver holds
    have differs : other ≠ future := by
      intro same
      rw [← same, holds] at isOutside
      cases isOutside
    rw [Function.update_of_ne differs]
    exact invariant.batched other receiver holds

/-- A refused future leaves its waker in `pending`. -/
theorem refuse
    (invariant : WakerInvariant state)
    {call : Call Task}
    (called : state.polling = some call)
    (holds : state.futures call.future = .unbatched call.task)
    (notWoken : (state.resolutions call.future).isWoken = false)
    (pending :
      after.queue.pending = state.queue.pending ++ [call.waker])
    (notified : after.notified = state.notified)
    (polled : after.polled = state.polled)
    (polling : after.polling = none)
    (resolutions : after.resolutions = state.resolutions)
    (futures : after.futures = state.futures) :
    WakerInvariant after := by
  obtain ⟨own, isPolled, notPending, wakes⟩ := invariant.call call called
  rw [own] at pending
  constructor
  case call =>
    rw [polling]
    exact fun _ called => by cases called
  case receivers =>
    rw [futures]
    exact invariant.receivers
  case pending =>
    rw [pending, polled, notified, futures]
    intro other member
    rcases List.mem_append.mp member with earlier | isNew
    · exact invariant.pending other earlier
    · rw [List.mem_singleton.mp isNew]
      refine ⟨isPolled, ?_, by rw [holds]; rfl⟩
      rw [← Bool.not_eq_true]
      intro isNotified
      rw [wakes isNotified] at notWoken
      cases notWoken
  case once =>
    rw [pending, List.nodup_append]
    refine ⟨invariant.once, by simp, ?_⟩
    intro other member last isLast same
    rw [List.mem_singleton] at isLast
    rw [same, isLast] at member
    exact notPending member
  case batched =>
    rw [futures, polled, notified, resolutions]
    exact invariant.batched

/-- The owner's steps wake nobody. -/
theorem ownerMove
    (invariant : WakerInvariant state)
    (enqueue : EnqueueInvariant N task state)
    {queue : Queue.State (TaskRef Task) Nat}
    (moved : OwnerMove N state.queue queue) :
    WakerInvariant { state.progress with queue := queue } := by
  cases moved with
  | @write _ index at_ =>
      have callAt := enqueue.callAt
      rw [at_] at callAt
      obtain ⟨call, called, _, _⟩ := callAt
      obtain ⟨own, _, notPending, _⟩ := invariant.call call called
      have futures :
          state.progress.futures =
            Function.update state.futures call.future
              (.batched ⟨index, none, call.waker⟩) := by
        simp [State.progress, at_, called]
      refine invariant.of_future futures
        (fun _ member => (notPending member).elim) ?_
        (fun _ _ => Or.inr ⟨call, called, rfl⟩) rfl rfl rfl rfl
        (fun _ => id)
      intro receiver holds
      cases holds
      exact own
  | add at_ | occupy at_ | enterAtBoundary at_ _ | enterInside at_ _
  | cachedFree at_ _ | cachedBusy at_ _ | loadedFree at_ _
  | loadedBusy at_ _ | replaceJoined at_ _ | replaceOpening at_ _ =>
      exact invariant.of_same rfl rfl rfl rfl (fun _ => id)
        (by simp [State.progress, at_])

/-- The resolver wakes the waker of its own task's future. -/
theorem resolveMove
    (invariant : WakerInvariant state)
    (resolve : ResolveInvariant N state)
    (enqueue : EnqueueInvariant N task state)
    (window : state.queue.LiveInWindow N)
    (woken :
      ∀ future,
        (state.resolutions future).isWoken = true →
        (after.resolutions future).isWoken = true)
    {batch cell : Nat}
    {method : Method}
    {todo : List Nat}
    {value : Option Value}
    {point : ResolvePoint}
    (resolving :
      state.batches batch = .resolving method todo cell value point)
    (moved :
      ResolveMove state batch method todo cell value point after) :
    WakerInvariant after := by
  cases moved with
  | setting _ | discard _ | fetchXor =>
      exact invariant.of_same rfl rfl rfl rfl woken rfl
  | @write rx designates =>
      have outside (stage : Future Task Value) :
          (stage.store value).isOutside = stage.isOutside := by
        cases stage <;> rfl
      refine invariant.of_future rfl ?_ ?_ ?_ rfl rfl rfl rfl woken
      · intro isOutside _
        rw [outside]
        exact isOutside
      · intro receiver holds
        rw [Future.receiver?_store] at holds
        obtain ⟨old, held, shape⟩ := Option.map_eq_some_iff.mp holds
        rw [← shape]
        exact invariant.receivers rx old held
      · intro receiver holds
        cases stage : state.futures rx <;> rw [stage] at holds <;>
          cases holds
        exact Or.inl ⟨_, rfl⟩
  | @wake rx designates =>
      obtain ⟨future, receiver, pointer, holds, _⟩ :=
        resolve.receiver_of_resolving enqueue window resolving
          (Or.inr rfl)
      have same := designates.symm.trans pointer
      cases same
      have isWaker :
          (state.futures rx).receiver?.map Receiver.waker =
            some rx := by
        rw [holds, Option.map_some, invariant.receivers _ _ holds]
      have marked :
          (state.mark cell .woken).resolutions =
            Function.update state.resolutions rx .woken :=
        State.mark_resolutions pointer
      have before : WakerInvariant (state.mark cell .woken) :=
        invariant.of_same rfl rfl rfl rfl woken rfl
      have notPending : rx ∉ state.queue.pending := by
        apply invariant.notMem_pending
        cases stage : state.futures rx <;> rw [stage] at holds <;>
          first | rfl | cases holds
      have notified :
          WakerInvariant ((state.mark cell .woken).notify (some rx)) :=
        before.notify notPending (by rw [marked]; simp [Resolution.isWoken])
      rw [isWaker]
      exact notified.of_same rfl rfl rfl rfl (fun _ => id) rfl

/-- Every step keeps the wakers, as long as the polls keep the rules. -/
theorem move
    (invariant : WakerInvariant state)
    (resolve : ResolveInvariant N state)
    (enqueue : EnqueueInvariant N task state)
    (phase : PhaseInvariant N state.queue)
    (window : state.queue.LiveInWindow N)
    {action : Action Value}
    (ownWaker : OwnWaker state action)
    (moved : Move program N state action after) :
    WakerInvariant after := by
  have woken (future : Nat) :
      (state.resolutions future).isWoken = true →
        (after.resolutions future).isWoken = true :=
    resolve.isWoken_of_isWoken enqueue phase window moved
  cases moved with
  | call holds noCall idle =>
      exact invariant.call_ ownWaker ⟨rfl, rfl⟩ rfl rfl rfl rfl rfl rfl
  | @ready future waker receiver outside holds =>
      have begun := invariant.beginPoll future waker
      refine begun.of_future rfl ?_ (fun _ held => by cases held)
        (fun _ same => by cases same) rfl rfl rfl rfl (fun _ => id)
      intro isOutside
      change (state.futures future).isOutside = true at isOutside
      rw [holds] at isOutside
      cases isOutside
  | @idlePoll future waker holds =>
      exact invariant.beginPoll future waker
  | owner moved =>
      exact invariant.ownerMove enqueue moved
  | refuse called at_ =>
      have callAt := enqueue.callAt
      rw [at_] at callAt
      obtain ⟨call, isCall, holds⟩ := callAt
      rw [called] at isCall
      cases isCall
      have fresh := (enqueue.unbatched _ _ holds).2
      refine invariant.refuse called holds ?_ rfl rfl rfl rfl rfl rfl
      rw [resolve.words.notEnqueued _ fresh]
      rfl
  | join _ _ | spawn _ _ =>
      exact invariant.of_frame rfl rfl rfl (fun _ called => by cases called)
        woken invariant.receivers (fun _ _ => id)
        (fun _ receiver holds => Or.inl ⟨receiver, holds⟩)
  | assign _ _ _ _ _ | invoke _ | release _ _ _ _ | complete _ _
  | visitMap _ | visitDrop _ | visitWith _ =>
      exact invariant.of_same rfl rfl rfl rfl woken rfl
  | resolve resolving moved =>
      exact invariant.resolveMove resolve enqueue window woken resolving
        moved
  | retry releasing =>
      exact invariant
  | @steal batch batchLimit handle releasing found draining =>
      have pending := steal_pending state.queue batch handle batchLimit
      cases waiting : state.queue.pending with
      | nil =>
          rw [waiting] at pending
          exact invariant.of_same (pending.trans waiting.symm) rfl rfl rfl
            woken rfl
      | cons future rest =>
          rw [waiting] at pending
          exact invariant.drain waiting pending rfl rfl rfl rfl rfl
  | @dropBatched future receiver outside holds =>
      refine invariant.of_future rfl ?_ ?_ (fun _ same => by cases same)
        rfl rfl rfl rfl woken
      · rw [holds]
        exact fun isOutside => by cases isOutside
      · intro held isReceiver
        cases isReceiver
        exact invariant.receivers future receiver
          (Future.receiver?_of_batched holds)
  | dropUnbatched _ _ | dropReceived _ | dropReturn _ _ =>
      exact invariant.of_future rfl (fun _ _ => rfl)
        (fun _ held => by cases held) (fun _ same => by cases same) rfl rfl
        rfl rfl woken
  | @spin future seen receiver holds waits =>
      refine invariant.of_future rfl ?_ ?_ (fun _ same => by cases same)
        rfl rfl rfl rfl woken
      · rw [holds]
        exact fun isOutside => by cases isOutside
      · intro held isReceiver
        cases isReceiver
        exact invariant.receivers future receiver
          (Future.receiver?_of_dropping holds)

end WakerInvariant

/-! ## Runs under the rules of the futures -/

/-- A permitted step that writes no live cell and polls a woken future. -/
def Disciplined
    {width : PointerWidth}
    (N : BufferSize width)
    (allowed : State Task Value → Action Value → Prop)
    (state : State Task Value)
    (action : Action Value) :
    Prop :=
  allowed state action ∧ WritesFree N state action ∧ PollsWoken state action

section Discipline

variable
    {width : PointerWidth}
    {program : Program Task Value}
    {N : BufferSize width}
    {allowed : State Task Value → Action Value → Prop}
    {task : Nat → Task}
    {state : State Task Value}

theorem Reachable.resolveInvariant_of_disciplined
    (reachable :
      Reachable program N (Disciplined N allowed) task state) :
    ResolveInvariant N state :=
  Reachable.resolveInvariant (fun _ _ permitted => permitted.2.1)
    (fun _ _ permitted => permitted.2.2) reachable

theorem Reachable.liveInWindow_of_disciplined
    (reachable :
      Reachable program N (Disciplined N allowed) task state) :
    state.queue.LiveInWindow N :=
  Reachable.liveInWindow (fun _ _ permitted => permitted.2.1) reachable

/-- The wakers along a run in which every future is polled with its own. -/
theorem Reachable.wakerInvariant
    (ownWaker :
      ∀ state action, allowed state action → OwnWaker state action)
    (reachable :
      Reachable program N (Disciplined N allowed) task state) :
    WakerInvariant state :=
  TransitionSystem.Reachable.invariant WakerInvariant.initial
    (fun earlier invariant permitted taken =>
      invariant.move (Reachable.resolveInvariant_of_disciplined earlier)
        (Reachable.enqueueInvariant earlier)
        (Queue.Reachable.phaseInvariant (Reachable.queue earlier))
        (Reachable.liveInWindow_of_disciplined earlier)
        (ownWaker _ _ permitted.1) (step_move taken))
    reachable

/-- With wakers of their own, futures are polled after their wake-ups. -/
theorem Reachable.disciplined
    {N : BufferSize .w64}
    (small : N.size ≤ 1024)
    (ownWaker :
      ∀ state action, allowed state action → OwnWaker state action)
    (reachable : Reachable program N allowed task state) :
    Reachable program N (Disciplined N allowed) task state := by
  refine TransitionSystem.Reachable.strengthen ?_ reachable
  intro state action earlier permitted
  exact ⟨permitted, Reachable.writesFree_of_small small earlier action,
    (Reachable.wakerInvariant ownWaker earlier).pollsWoken
      (ownWaker state action permitted)⟩

end Discipline

end StackQueue.TaskQueue
