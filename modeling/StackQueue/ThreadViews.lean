import StackQueue.ThreadSteps

namespace StackQueue.TaskThreads

open Queue TaskQueue

/-!
# Each thread's part of a run is a run of one queue

A thread sees the futures that were last polled on it, and none of the steps
of other futures.  `Agrees` relates the state of all threads to a state of one
queue with all futures, in which the futures of other threads still wait for
their poll, or for the next one; `view_step` shows that a step of a thread is
a step there, and `view_other` that it is none for the other threads.
-/

variable {width : PointerWidth} {Task Value : Type}

/-- A thread's queue with the futures that it has seen. -/
structure Agrees
    (task : Nat → Task)
    (state : State Task Value)
    (thread : Nat)
    (lone : TaskQueue.State Task Value) : Prop where
  queue :
    Thread.of lone = state.threads thread
  here :
    ∀ future,
      state.home future = some thread →
      lone.futures future = state.futures future ∧
        lone.notified future = state.notified future
  /-- A future that has gone elsewhere was woken before. -/
  elsewhere :
    ∀ future,
      state.home future ≠ some thread →
      lone.futures future = .unbatched (task future) ∧
        (future ∈ lone.polled → lone.notified future = true)
  polled :
    ∀ future ∈ lone.polled, future ∈ state.polled
  calling :
    ∀ call,
      lone.polling = some call →
      state.home call.future = some thread

/-- What is known of the futures on all threads. -/
structure ThreadsInvariant
    (program : Program Task Value)
    (N : BufferSize width)
    (rule : TaskQueue.Action Value → Prop)
    (task : Nat → Task)
    (state : State Task Value) : Prop where
  alone :
    ∀ thread,
      ∃ lone : TaskQueue.State Task Value,
        TaskQueue.Reachable program N (Follows rule) task lone ∧
          Agrees task state thread lone
  fresh :
    ∀ future,
      state.home future = none →
      state.futures future = .unbatched (task future) ∨
        state.futures future = .dropped

/-! ## One queue -/

section Lone

variable
    {program : Program Task Value}
    {N : BufferSize width}
    {rule : TaskQueue.Action Value → Prop}
    {task : Nat → Task}
    {lone : TaskQueue.State Task Value}

theorem ownWaker_of_follows
    (state : TaskQueue.State Task Value)
    (action : TaskQueue.Action Value)
    (follows : Follows rule state action) :
    OwnWaker state action :=
  follows.1

/-- A queue with its futures, run by itself, keeps all rules. -/
theorem lone_disciplined
    (safe : N.IsSafe)
    (reachable : TaskQueue.Reachable program N (Follows rule) task lone) :
    TaskQueue.Reachable program N (Disciplined N (Follows rule)) task
      lone :=
  TaskQueue.Reachable.disciplined_of_safe safe ownWaker_of_follows
    reachable

theorem lone_wakers
    (safe : N.IsSafe)
    (reachable : TaskQueue.Reachable program N (Follows rule) task lone) :
    WakerInvariant lone :=
  TaskQueue.Reachable.wakerInvariant ownWaker_of_follows
    (lone_disciplined safe reachable)

/-- A cell being resolved leads to a future that was accepted. -/
theorem enqueued_of_resolve
    (safe : N.IsSafe)
    (reachable : TaskQueue.Reachable program N (Follows rule) task lone)
    {batch future : Nat}
    (touches :
      Touches lone future (.resolve batch : TaskQueue.Action Value)) :
    future ∈ lone.enqueuers := by
  obtain ⟨method, todo, cell, value, point, resolving, pointer⟩ := touches
  have disciplined := lone_disciplined safe reachable
  obtain ⟨handle, position, other, current, _⟩ :=
    (TaskQueue.Reachable.resolveInvariant_of_disciplined
      disciplined).batches.resolving_current
        (TaskQueue.Reachable.enqueueInvariant reachable)
        (TaskQueue.Reachable.liveInWindow_of_disciplined disciplined)
        resolving
  have same := pointer.symm.trans current.pointer
  cases same
  exact List.mem_of_getElem? current.enqueued

end Lone

/-! ## Agreement is kept -/

section Items

variable {Item : Type}

theorem replace_congr
    (change : Option (Nat × Item))
    {items others : Nat → Item}
    {index : Nat}
    (same : items index = others index) :
    replace change items index = replace change others index := by
  cases change with
  | none => exact same
  | some replaced =>
      by_cases isReplaced : index = replaced.1
      · subst isReplaced
        simp [replace]
      · simp [replace, isReplaced, same]

theorem replace_of_ne
    {change : Option (Nat × Item)}
    (items : Nat → Item)
    {index : Nat}
    (differs : ∀ item, change ≠ some (index, item)) :
    replace change items index = items index := by
  cases change with
  | none => rfl
  | some replaced =>
      apply Function.update_of_ne
      intro same
      subst same
      exact differs replaced.2 rfl

end Items

theorem State.comeTo_poll
    (home : Nat → Option Nat)
    (thread future waker : Nat) :
    comeTo home thread
        (.poll future waker : TaskQueue.Action Value) future =
      some thread :=
  Function.update_self ..

/-- Only a poll moves a future, and only to the polling thread. -/
theorem State.comeTo_cases
    (home : Nat → Option Nat)
    (thread future : Nat)
    (action : TaskQueue.Action Value) :
    comeTo home thread action future = home future ∨
      ∃ waker,
        action = .poll future waker ∧
          comeTo home thread action future = some thread := by
  cases action with
  | poll other waker =>
      by_cases same : future = other
      · subst same
        exact .inr ⟨waker, rfl, State.comeTo_poll ..⟩
      · exact .inl (Function.update_of_ne same ..)
  | _ => exact .inl rfl

theorem State.home_of_comeTo
    {home : Nat → Option Nat}
    {thread future : Nat}
    {action : TaskQueue.Action Value}
    (arrives : comeTo home thread action future = some thread) :
    home future = some thread ∨ ∃ waker, action = .poll future waker := by
  rcases State.comeTo_cases home thread future action with
    same | ⟨waker, isPoll, _⟩
  · exact .inl (same.symm.trans arrives)
  · exact .inr ⟨waker, isPoll⟩

theorem State.comeTo_of_home
    {home : Nat → Option Nat}
    {thread future : Nat}
    (action : TaskQueue.Action Value)
    (isHome : home future = some thread) :
    comeTo home thread action future = some thread := by
  rcases State.comeTo_cases home thread future action with
    same | ⟨_, _, comes⟩
  · exact same.trans isHome
  · exact comes

namespace Agrees

variable
    {program : Program Task Value}
    {N : BufferSize width}
    {rule : TaskQueue.Action Value → Prop}
    {task : Nat → Task}
    {state later : State Task Value}
    {thread : Nat}
    {lone : TaskQueue.State Task Value}

theorem initial (thread : Nat) :
    Agrees task (initial task : State Task Value) thread
      (TaskQueue.initial task) := by
  constructor <;> simp [TaskThreads.initial, TaskQueue.initial]

/-- A thread is its own queue with what it has seen. -/
theorem eq_within (agrees : Agrees task state thread lone) :
    lone =
      (state.threads thread).within lone.futures lone.notified
        lone.polled := by
  rw [← agrees.queue]
  rfl

/-- Nothing happened on a thread, though futures may have left it. -/
theorem kept
    (agrees : Agrees task state thread lone)
    (same : later.threads thread = state.threads thread)
    (stays :
      ∀ future,
        later.home future = some thread →
        state.home future = some thread ∧
          later.futures future = state.futures future ∧
          later.notified future = state.notified future)
    (leaves :
      ∀ future,
        state.home future = some thread →
        later.home future ≠ some thread →
        state.futures future = .unbatched (task future) ∧
          (future ∈ state.polled → state.notified future = true) ∧
          (state.view thread).isPolling future = false)
    (polled : ∀ future ∈ state.polled, future ∈ later.polled) :
    Agrees task later thread lone := by
  constructor
  case queue => exact agrees.queue.trans same.symm
  case here =>
    intro future isHome
    obtain ⟨wasHome, futures, notified⟩ := stays future isHome
    rw [futures, notified]
    exact agrees.here future wasHome
  case elsewhere =>
    intro future notHome
    by_cases wasHome : state.home future = some thread
    · obtain ⟨holds, woken, _⟩ := leaves future wasHome notHome
      obtain ⟨futures, notified⟩ := agrees.here future wasHome
      rw [futures, notified]
      exact ⟨holds, fun seen => woken (agrees.polled future seen)⟩
    · exact agrees.elsewhere future wasHome
  case polled =>
    exact fun future seen => polled future (agrees.polled future seen)
  case calling =>
    intro call called
    have wasHome := agrees.calling call called
    by_contra notHome
    have notPolling := (leaves call.future wasHome notHome).2.2
    have also : (state.view thread).polling = some call := by
      rw [← called, agrees.eq_within]
      rfl
    simp [TaskQueue.State.isPolling, also] at notPolling

/-- The thread makes a step, with the same effect on what it has seen. -/
theorem stepped
    (agrees : Agrees task state thread lone)
    {action : TaskQueue.Action Value}
    {after : TaskQueue.State Task Value}
    {effect : Effect Task Value}
    (ownWaker : OwnWaker (state.view thread) action)
    (carries :
      Carries program N (state.threads thread) state.futures lone.futures
        state.notified state.polled action after effect)
    (reads :
      ∀ future waker,
        action = .poll future waker →
        lone.futures future = state.futures future)
    (changed :
      ∀ index item,
        effect.future = some (index, item) →
        State.comeTo state.home thread action index = some thread)
    (woken :
      ∀ index item,
        effect.waker = some (index, item) →
        State.comeTo state.home thread action index = some thread)
    (calling :
      ∀ call,
        after.polling = some call →
        State.comeTo state.home thread action call.future =
          some thread) :
    Agrees task (state.put thread action after) thread
      (effect.apply (.of after) lone.futures lone.notified
        lone.polled) := by
  have futuresAfter :
      after.futures = replace effect.future state.futures := by
    rw [carries.result]
    rfl
  have notifiedAfter :
      after.notified = replace effect.waker state.notified := by
    rw [carries.result]
    rfl
  have polledAfter : after.polled = effect.began ++ state.polled := by
    rw [carries.result]
    rfl
  constructor
  case queue =>
    change Thread.of after =
      Function.update state.threads thread (.of after) thread
    rw [Function.update_self]
  case here =>
    intro future isHome
    change replace effect.future lone.futures future =
        after.futures future ∧
      replace effect.waker lone.notified future = after.notified future
    rw [futuresAfter, notifiedAfter]
    rcases State.home_of_comeTo isHome with wasHome | ⟨waker, isPoll⟩
    · obtain ⟨futures, notified⟩ := agrees.here future wasHome
      exact ⟨replace_congr _ futures, replace_congr _ notified⟩
    · refine ⟨replace_congr _ (reads future waker isPoll), ?_⟩
      have begins := (carries.begins future waker isPoll).1
      rw [isPoll] at ownWaker
      rw [begins, ownWaker.1]
      simp [replace]
  case elsewhere =>
    intro future notHome
    have notThere : state.home future ≠ some thread :=
      fun wasHome => notHome (State.comeTo_of_home action wasHome)
    obtain ⟨holds, wasWoken⟩ := agrees.elsewhere future notThere
    have unchanged :
        replace effect.future lone.futures future =
          lone.futures future := by
      apply replace_of_ne
      exact fun item changes => notHome (changed future item changes)
    have notWoken :
        replace effect.waker lone.notified future =
          lone.notified future := by
      apply replace_of_ne
      exact fun item wakes => notHome (woken future item wakes)
    refine ⟨unchanged.trans holds, fun seen => notWoken.trans ?_⟩
    rcases List.mem_append.mp seen with begun | before
    · obtain ⟨waker, isPoll⟩ := carries.began future begun
      apply (notHome _).elim
      change State.comeTo state.home thread action future = some thread
      rw [isPoll]
      exact State.comeTo_poll ..
    · exact wasWoken before
  case polled =>
    intro future seen
    change future ∈ after.polled
    rw [polledAfter]
    rcases List.mem_append.mp seen with begun | before
    · exact List.mem_append_left _ begun
    · exact List.mem_append_right _ (agrees.polled future before)
  case calling => exact calling

/-- A future keeps to its own waker on the queue that it is polled on. -/
theorem ownWaker
    (agrees : Agrees task state thread lone)
    {action : TaskQueue.Action Value}
    (ownWaker : OwnWaker (state.view thread) action) :
    OwnWaker lone action := by
  cases action with
  | poll future waker =>
      refine ⟨ownWaker.1, fun seen => ?_⟩
      by_cases isHome : state.home future = some thread
      · rw [(agrees.here future isHome).2]
        exact ownWaker.2 (agrees.polled future seen)
      · exact (agrees.elsewhere future isHome).2 seen
  | _ => trivial

/-! ## What a thread's step looks at -/

/-- The futures that a step reads or changes are, or come, to its thread. -/
theorem touched_home
    (agrees : Agrees task state thread lone)
    (safe : N.IsSafe)
    (reachable : TaskQueue.Reachable program N (Follows rule) task lone)
    {action : TaskQueue.Action Value}
    (permitted : state.permits thread action = true)
    (notFresh : ∀ future, action = .drop future → state.home future ≠ none)
    {future : Nat}
    (touches : Touches (state.view thread) future action) :
    State.comeTo state.home thread action future = some thread := by
  cases action with
  | poll other waker =>
      cases touches
      exact State.comeTo_poll ..
  | drop other =>
      cases touches
      simp only [State.permits, Bool.and_eq_true, Bool.or_eq_true,
        decide_eq_true_eq] at permitted
      rcases permitted.2 with fresh | isHome
      · exact (notFresh _ rfl fresh).elim
      · exact isHome
  | spin other =>
      cases touches
      simp only [State.permits, decide_eq_true_eq] at permitted
      exact permitted
  | owner =>
      obtain ⟨call, called, isFuture⟩ := touches
      subst isFuture
      apply agrees.calling
      rw [agrees.eq_within]
      exact called
  | resolve batch =>
      change Touches
        ((state.threads thread).within lone.futures lone.notified
          lone.polled) future
        (.resolve batch : TaskQueue.Action Value) at touches
      rw [← agrees.eq_within] at touches
      have enqueued := enqueued_of_resolve safe reachable touches
      change state.home future = some thread
      by_contra notHome
      have holds := (agrees.elsewhere future notHome).1
      exact
        ((TaskQueue.Reachable.enqueueInvariant reachable).unbatched future
          _ holds).2 enqueued
  | finish | assign batch | invoke batch method | visit batch
  | visitWith batch value | release batch | steal batch retry
  | complete batch =>
      exact touches.elim

/-- There they are as the other threads see them. -/
theorem touched_same
    (agrees : Agrees task state thread lone)
    (safe : N.IsSafe)
    (reachable : TaskQueue.Reachable program N (Follows rule) task lone)
    (held :
      ∀ future held,
        state.futures future = .unbatched held →
        held = task future)
    {action : TaskQueue.Action Value}
    (permitted : state.permits thread action = true)
    (notFresh : ∀ future, action = .drop future → state.home future ≠ none)
    {future : Nat}
    (touches : Touches (state.view thread) future action) :
    lone.futures future = state.futures future := by
  have comes :=
    agrees.touched_home safe reachable permitted notFresh touches
  by_cases isHome : state.home future = some thread
  · exact (agrees.here future isHome).1
  · rcases State.home_of_comeTo comes with wasHome | ⟨waker, isPoll⟩
    · exact (isHome wasHome).elim
    · subst isPoll
      simp only [State.permits, Bool.and_eq_true, Bool.or_eq_true,
        decide_eq_true_eq] at permitted
      rcases permitted.2 with unbatched | wasHome
      · unfold State.isUnbatched at unbatched
        split at unbatched
        · rename_i kept holds
          rw [(agrees.elsewhere future isHome).1, holds,
            held future kept holds]
        · cases unbatched
      · exact (isHome wasHome).elim

/-- The wakers that a step wakes are those of the thread's futures. -/
theorem noticed_home
    (agrees : Agrees task state thread lone)
    (safe : N.IsSafe)
    (reachable : TaskQueue.Reachable program N (Follows rule) task lone)
    {action : TaskQueue.Action Value}
    (ownWaker : OwnWaker (state.view thread) action)
    (permitted : state.permits thread action = true)
    {waker : Nat}
    (notices : Notices (state.view thread) waker action) :
    State.comeTo state.home thread action waker = some thread := by
  have wakers := lone_wakers safe reachable
  cases action with
  | poll future other =>
      cases notices
      rw [ownWaker.1]
      exact State.comeTo_poll ..
  | resolve batch =>
      obtain ⟨future, receiver, touches, holds, isWaker⟩ := notices
      have isHome : state.home future = some thread :=
        agrees.touched_home safe reachable permitted
          (fun _ isDrop => by cases isDrop) touches
      change (state.futures future).receiver? = some receiver at holds
      rw [← (agrees.here future isHome).1] at holds
      rw [← isWaker, wakers.receivers future receiver holds]
      exact isHome
  | steal batch retry =>
      have queued : waker ∈ lone.queue.pending := by
        rw [agrees.eq_within]
        exact List.mem_of_mem_head? notices
      obtain ⟨seen, notWoken, _⟩ := wakers.pending waker queued
      change state.home waker = some thread
      by_contra notHome
      have woken := (agrees.elsewhere waker notHome).2 seen
      rw [notWoken] at woken
      cases woken
  | owner | finish | assign batch | invoke batch method | visit batch
  | visitWith batch value | release batch | complete batch | drop future
  | spin future =>
      exact notices.elim

end Agrees

/-- A call is in progress only when its poll has begun it. -/
theorem polling_of_step
    {program : Program Task Value}
    {N : BufferSize width}
    {before after : TaskQueue.State Task Value}
    {action : TaskQueue.Action Value}
    (taken : TaskQueue.step program N before action = some after)
    {call : Call Task}
    (called : after.polling = some call) :
    before.polling = some call ∨
      ∃ waker, action = .poll call.future waker := by
  cases step_move taken with
  | call holds noCall idle =>
      cases called
      exact .inr ⟨_, rfl⟩
  | refuse _ _ | join _ _ | spawn _ _ => cases called
  | resolve _ moved => cases moved <;> exact .inl called
  | _ => exact .inl called

/-! ## Every step of a run -/

section Steps

variable
    {program : Program Task Value}
    {N : BufferSize width}
    {rule : TaskQueue.Action Value → Prop}
    {task : Nat → Task}
    {state : State Task Value}
    {thread : Nat}
    {action : TaskQueue.Action Value}
    {after : TaskQueue.State Task Value}

/-- The step is one of the thread's own queue, and nobody else's concern. -/
theorem view_step
    {lone : TaskQueue.State Task Value}
    (agrees : Agrees task state thread lone)
    (safe : N.IsSafe)
    (reachable : TaskQueue.Reachable program N (Follows rule) task lone)
    (held :
      ∀ future held,
        state.futures future = .unbatched held →
        held = task future)
    (follows : Follows rule (state.view thread) action)
    (permitted : state.permits thread action = true)
    (notFresh : ∀ future, action = .drop future → state.home future ≠ none)
    (taken :
      TaskQueue.step program N (state.view thread) action = some after) :
    (∃ loneAfter,
      TaskQueue.Reachable program N (Follows rule) task loneAfter ∧
        Agrees task (state.put thread action after) thread loneAfter) ∧
      (∀ future,
        State.comeTo state.home thread action future ≠ some thread →
        after.futures future = state.futures future ∧
          after.notified future = state.notified future) ∧
      ∀ future ∈ state.polled, future ∈ after.polled := by
  have touchedHome :
      ∀ future,
        Touches (state.view thread) future action →
        State.comeTo state.home thread action future = some thread :=
    fun _ touches =>
      agrees.touched_home safe reachable permitted notFresh touches
  obtain ⟨effect, carries⟩ :=
    step_carries (fun future touches =>
      agrees.touched_same safe reachable held permitted notFresh touches)
      taken
  have changed :
      ∀ index item,
        effect.future = some (index, item) →
        State.comeTo state.home thread action index = some thread :=
    fun index item changes =>
      touchedHome index (carries.touched index item changes)
  have woken :
      ∀ index item,
        effect.waker = some (index, item) →
        State.comeTo state.home thread action index = some thread :=
    fun index item wakes =>
      agrees.noticed_home safe reachable follows.1 permitted
        (carries.noticed index item wakes)
  refine ⟨⟨effect.apply (.of after) lone.futures lone.notified
    lone.polled, ?_, ?_⟩, ?_, ?_⟩
  · refine reachable.next ⟨agrees.ownWaker follows.1, follows.2⟩ ?_
    have also := carries.also lone.notified lone.polled
    rw [← agrees.eq_within] at also
    exact also
  · apply agrees.stepped follows.1 carries _ changed woken
    · intro call called
      rcases polling_of_step taken called with before | ⟨waker, isPoll⟩
      · apply State.comeTo_of_home
        apply agrees.calling
        rw [agrees.eq_within]
        exact before
      · rw [isPoll]
        exact State.comeTo_poll ..
    · intro future waker isPoll
      apply agrees.touched_same safe reachable held permitted notFresh
      rw [isPoll]
      rfl
  · intro future notHome
    rw [carries.result]
    refine ⟨replace_of_ne _ ?_, replace_of_ne _ ?_⟩
    · exact fun item changes => notHome (changed future item changes)
    · exact fun item wakes => notHome (woken future item wakes)
  · intro future seen
    rw [carries.result]
    exact List.mem_append_right _ seen

namespace ThreadsInvariant

theorem initial :
    ThreadsInvariant program N rule task
      (TaskThreads.initial task : State Task Value) where
  alone := fun thread => ⟨_, .start, Agrees.initial thread⟩
  fresh := fun _ _ => .inl rfl

/-- A future that is not batched has the task given to it. -/
theorem held
    (invariant : ThreadsInvariant program N rule task state)
    (future : Nat)
    (held : Task)
    (holds : state.futures future = .unbatched held) :
    held = task future := by
  cases isHome : state.home future with
  | none =>
      rcases invariant.fresh future isHome with fresh | dropped
      · rw [holds] at fresh
        cases fresh
        rfl
      · rw [holds] at dropped
        cases dropped
  | some thread =>
      obtain ⟨lone, reachable, agrees⟩ := invariant.alone thread
      rw [← (agrees.here future isHome).1] at holds
      exact
        ((TaskQueue.Reachable.enqueueInvariant reachable).unbatched future
          held holds).1

/-- A future leaves another thread with its task, after its wake-up. -/
theorem leaves
    (invariant : ThreadsInvariant program N rule task state)
    {future waker other : Nat}
    (ownWaker : OwnWaker (state.view thread) (.poll future waker))
    (permitted : state.permits thread (.poll future waker) = true)
    (wasHome : state.home future = some other)
    (differs : other ≠ thread) :
    state.futures future = .unbatched (task future) ∧
      (future ∈ state.polled → state.notified future = true) ∧
      (state.view other).isPolling future = false := by
  simp only [State.permits, State.isBorrowed, wasHome, Bool.and_eq_true,
    Bool.not_eq_true', Bool.or_eq_true, decide_eq_true_eq,
    Option.some.injEq, differs, or_false] at permitted
  obtain ⟨notPolling, unbatched⟩ := permitted
  refine ⟨?_, ownWaker.2, notPolling⟩
  unfold State.isUnbatched at unbatched
  split at unbatched
  · rename_i kept holds
    rw [holds, invariant.held future kept holds]
  · cases unbatched

/-- A future that was never polled is dropped. -/
theorem dropFresh
    (invariant : ThreadsInvariant program N rule task state)
    {future : Nat}
    (isFresh : state.home future = none)
    (taken :
      TaskQueue.step program N (state.view thread) (.drop future) =
        some after) :
    ThreadsInvariant program N rule task
      (state.put thread (.drop future) after) := by
  have fresh := invariant.fresh future isFresh
  have shape :
      after = (state.view thread).setFuture future .dropped := by
    cases step_move taken with
    | dropBatched _ holds =>
        change state.futures future = _ at holds
        rw [holds] at fresh
        rcases fresh with fresh | fresh <;> cases fresh
    | dropUnbatched _ _ => rfl
    | dropReceived _ => rfl
  subst shape
  have elsewhere
      {other : Nat}
      (differs : other ≠ future) :
      ((state.view thread).setFuture future .dropped).futures other =
        state.futures other :=
    Function.update_of_ne differs ..
  constructor
  case alone =>
    intro other
    obtain ⟨lone, reachable, agrees⟩ := invariant.alone other
    refine ⟨lone, reachable, agrees.kept ?_ ?_ ?_ ?_⟩
    · change Function.update state.threads thread (state.threads thread)
        other = state.threads other
      rw [Function.update_eq_self]
    · intro seen isHome
      refine ⟨isHome, elsewhere fun same => ?_, rfl⟩
      subst same
      cases isFresh.symm.trans isHome
    · exact fun seen isHome notHome => (notHome isHome).elim
    · exact fun _ => id
  case fresh =>
    intro other isNone
    by_cases same : other = future
    · subst same
      exact .inr (Function.update_self ..)
    · rcases invariant.fresh other isNone with isFresh | dropped
      · exact .inl ((elsewhere same).trans isFresh)
      · exact .inr ((elsewhere same).trans dropped)

/-- A step of any of the threads. -/
theorem step
    (safe : N.IsSafe)
    (invariant : ThreadsInvariant program N rule task state)
    (follows : Follows rule (state.view thread) action)
    (permitted : state.permits thread action = true)
    (taken :
      TaskQueue.step program N (state.view thread) action = some after) :
    ThreadsInvariant program N rule task
      (state.put thread action after) := by
  by_cases freshDrop :
      ∃ future, action = .drop future ∧ state.home future = none
  · obtain ⟨future, isDrop, isFresh⟩ := freshDrop
    subst isDrop
    exact invariant.dropFresh isFresh taken
  have notFresh :
      ∀ future, action = .drop future → state.home future ≠ none :=
    fun future isDrop isFresh => freshDrop ⟨future, isDrop, isFresh⟩
  obtain ⟨lone, reachable, agrees⟩ := invariant.alone thread
  obtain ⟨own, unchanged, polled⟩ :=
    view_step agrees safe reachable invariant.held follows permitted
      notFresh taken
  constructor
  case alone =>
    intro other
    by_cases same : other = thread
    · subst same
      exact own
    obtain ⟨otherLone, otherReachable, otherAgrees⟩ :=
      invariant.alone other
    refine ⟨otherLone, otherReachable, otherAgrees.kept ?_ ?_ ?_ polled⟩
    · exact Function.update_of_ne same ..
    · intro future isHome
      change State.comeTo state.home thread action future = some other
        at isHome
      have wasHome : state.home future = some other := by
        rcases State.comeTo_cases state.home thread future action with
          stays | ⟨_, _, comes⟩
        · exact stays.symm.trans isHome
        · cases comes.symm.trans isHome
          exact (same rfl).elim
      refine ⟨wasHome, unchanged future ?_⟩
      rw [isHome]
      exact fun isThread => same (Option.some.inj isThread)
    · intro future wasHome notHome
      rcases State.comeTo_cases state.home thread future action with
        stays | ⟨waker, isPoll, _⟩
      · exact (notHome (stays.trans wasHome)).elim
      · subst isPoll
        exact invariant.leaves follows.1 permitted wasHome same
  case fresh =>
    intro future isNone
    change State.comeTo state.home thread action future = none at isNone
    have wasNone : state.home future = none := by
      rcases State.comeTo_cases state.home thread future action with
        stays | ⟨_, _, comes⟩
      · exact stays.symm.trans isNone
      · cases comes.symm.trans isNone
    have notHome :
        State.comeTo state.home thread action future ≠ some thread := by
      rw [isNone]
      exact fun isThread => by cases isThread
    change after.futures future = _ ∨ after.futures future = _
    rw [(unchanged future notHome).1]
    exact invariant.fresh future wasNone

end ThreadsInvariant

end Steps

end StackQueue.TaskThreads
