import StackQueue.BatchReduce
import StackQueue.Callers

namespace StackQueue.BatchReduce

open Queue RangeTasks
open Callers (CallerInvariant)

/-!
# The tasks of `BatchReduce` futures on their way into the buffer

The futures are callers of `push`, so `CallerInvariant` says whose tasks were
accepted and who opened which range.  `PushInvariant` follows every future's
task besides: it is in the future, in the push in progress, dropped with the
future, or accepted, and accepted once.  It holds for every buffer size and
pointer width.
-/

variable {width : PointerWidth} {Task Result Control : Type}

/-- The queue and the callers of its `push`, without their futures. -/
def State.callers (state : State Task Result Control) : Callers.State Task where
  base := state.base
  call := state.call
  pushers := state.pushers
  openers := state.openers

/-- Where the tasks of the futures are. -/
structure PushInvariant
    (task : Nat → Task)
    (reducer : Nat → Control)
    (state : State Task Result Control) : Prop where
  /-- The futures push their own tasks. -/
  callers : CallerInvariant task state.callers
  pushing :
    ∀ future,
      (∃ kept, state.futures future = .pushing kept) ↔
        state.call = some future
  kept :
    ∀ future kept,
      state.futures future = .pushing kept → kept = reducer future
  unbatched :
    ∀ future held kept,
      state.futures future = .unbatched held kept →
      held = task future ∧
        kept = reducer future ∧
        future ∉ state.pushers
  waiting :
    ∀ future,
      future ∉ state.pushers →
      state.futures future =
          .unbatched (task future) (reducer future) ∨
        state.call = some future ∨
        state.futures future = .dropped

/-- The future is neither before nor within its push. -/
def Future.isLate : Future Task Result Control → Bool
  | .unbatched _ _ | .pushing _ => false
  | _ => true

namespace PushInvariant

variable
    {N : BufferSize width}
    {needsDrop : Bool}
    {act : Control → Reducers.Step Task Result Control}
    {task : Nat → Task}
    {reducer : Nat → Control}
    {state after : State Task Result Control}

theorem initial :
    PushInvariant task reducer
      (BatchReduce.initial task reducer :
        State Task Result Control) where
  callers := .initial
  pushing := by
    intro future
    constructor
    · rintro ⟨kept, holds⟩
      cases holds
    · intro called
      cases called
  kept := by
    intro future kept holds
    cases holds
  unbatched := by
    intro future held kept holds
    cases holds
    exact ⟨rfl, rfl, List.not_mem_nil⟩
  waiting := fun _ _ => .inl rfl

/-- A future whose push is over, and that was not dropped, was accepted. -/
theorem mem_pushers
    (invariant : PushInvariant task reducer state)
    {future : Nat}
    (late : (state.futures future).isLate = true)
    (alive : state.futures future ≠ .dropped) :
    future ∈ state.pushers := by
  by_contra fresh
  rcases invariant.waiting future fresh with waits | called | dropped
  · rw [waits] at late
    cases late
  · obtain ⟨kept, pushing⟩ := (invariant.pushing future).mpr called
    rw [pushing] at late
    cases late
  · exact alive dropped

/-- Other futures than the one in the call are not within a push. -/
theorem not_pushing
    (invariant : PushInvariant task reducer state)
    {future other : Nat}
    (called : state.call = some future)
    (differs : other ≠ future)
    (kept : Control) :
    state.futures other ≠ .pushing kept := by
  intro pushing
  have same := (invariant.pushing other).mp ⟨kept, pushing⟩
  rw [called] at same
  exact differs (Option.some.inj same).symm

/-- A step of a future whose push is over, or of one that is dropped. -/
theorem of_late
    (invariant : PushInvariant task reducer state)
    {future : Nat}
    {next : Future Task Result Control}
    (callers : CallerInvariant task after.callers)
    (futures :
      after.futures = Function.update state.futures future next)
    (notPushing :
      ∀ kept, state.futures future ≠ .pushing kept)
    (late : next.isLate = true)
    (joined : future ∈ state.pushers ∨ next = .dropped)
    (call : after.call = state.call)
    (pushers : after.pushers = state.pushers) :
    PushInvariant task reducer after := by
  have here : after.futures future = next := by
    rw [futures, Function.update_self]
  have elsewhere {other : Nat} (differs : other ≠ future) :
      after.futures other = state.futures other := by
    rw [futures, Function.update_of_ne differs]
  constructor
  case callers => exact callers
  case pushing =>
    intro other
    rw [call, ← invariant.pushing other]
    by_cases same : other = future
    · subst same
      rw [here]
      constructor
      · rintro ⟨kept, holds⟩
        rw [holds] at late
        cases late
      · rintro ⟨kept, holds⟩
        exact (notPushing kept holds).elim
    · rw [elsewhere same]
  case kept =>
    intro other kept holds
    by_cases same : other = future
    · subst same
      rw [here] at holds
      rw [holds] at late
      cases late
    · rw [elsewhere same] at holds
      exact invariant.kept other kept holds
  case unbatched =>
    intro other held kept holds
    rw [pushers]
    by_cases same : other = future
    · subst same
      rw [here] at holds
      rw [holds] at late
      cases late
    · rw [elsewhere same] at holds
      exact invariant.unbatched other held kept holds
  case waiting =>
    intro other fresh
    rw [pushers] at fresh
    rw [call]
    by_cases same : other = future
    · subst same
      rcases joined with accepted | dropped
      · exact (fresh accepted).elim
      · rw [here]
        exact .inr (.inr dropped)
    · rw [elsewhere same]
      exact invariant.waiting other fresh

/-- A step of a range that an accepted future holds. -/
theorem of_frame
    (invariant : PushInvariant task reducer state)
    {future batch : Nat}
    {next : Future Task Result Control}
    (frame : Frame batch state.base after.base)
    (futures :
      after.futures = Function.update state.futures future next)
    (wasLate : (state.futures future).isLate = true)
    (alive : state.futures future ≠ .dropped)
    (late : next.isLate = true)
    (same : after.callers = { state.callers with base := after.base }) :
    PushInvariant task reducer after := by
  have callers : CallerInvariant task after.callers := by
    rw [same]
    exact invariant.callers.of_frame frame
  apply invariant.of_late callers futures
  case notPushing =>
    intro kept pushing
    rw [pushing] at wasLate
    cases wasLate
  case late => exact late
  case joined => exact .inl (invariant.mem_pushers wasLate alive)
  case call => exact congrArg Callers.State.call same
  case pushers => exact congrArg Callers.State.pushers same

/-- A future gives its task to `push`. -/
theorem push
    (invariant : PushInvariant task reducer state)
    {future : Nat}
    {held : Task}
    {kept : Control}
    {base : RangeTasks.State Task}
    (holds : state.futures future = .unbatched held kept)
    (stepped :
      RangeTasks.step N needsDrop state.base (.push held) = some base) :
    PushInvariant task reducer
      { state.setFuture future (.pushing kept) with
        call := some future
        base := base } := by
  obtain ⟨isTask, isReducer, fresh⟩ :=
    invariant.unbatched future held kept holds
  subst isTask
  cases RangeTasks.step_move stepped with
  | bound on | rehold on | visit on => cases on
  | push idle moved =>
      have noCall : state.call = none :=
        invariant.callers.call_of_given idle
      constructor
      case callers => exact invariant.callers.push fresh moved
      case pushing =>
        intro other
        change
          (∃ kept', Function.update state.futures future
              (.pushing kept) other = .pushing kept') ↔
            some future = some other
        by_cases same : other = future
        · subst same
          rw [Function.update_self]
          exact ⟨fun _ => rfl, fun _ => ⟨kept, rfl⟩⟩
        · rw [Function.update_of_ne same, invariant.pushing, noCall]
          constructor
          · intro called
            cases called
          · intro called
            exact (same (Option.some.inj called).symm).elim
      case kept =>
        intro other kept' pushing
        change
          Function.update state.futures future (.pushing kept) other =
            _ at pushing
        by_cases same : other = future
        · subst same
          rw [Function.update_self] at pushing
          cases pushing
          exact isReducer
        · rw [Function.update_of_ne same] at pushing
          exact invariant.kept other kept' pushing
      case unbatched =>
        intro other held' kept' waits
        change
          Function.update state.futures future (.pushing kept) other =
            _ at waits
        by_cases same : other = future
        · subst same
          rw [Function.update_self] at waits
          cases waits
        · rw [Function.update_of_ne same] at waits
          exact invariant.unbatched other held' kept' waits
      case waiting =>
        intro other otherFresh
        by_cases same : other = future
        · exact .inr (.inl (by rw [same]))
        · change
            Function.update state.futures future (.pushing kept)
                other = _ ∨
              _ ∨
              Function.update state.futures future (.pushing kept)
                other = _
          rw [Function.update_of_ne same]
          rcases invariant.waiting other otherFresh with
            waits | called | dropped
          · exact .inl waits
          · rw [noCall] at called
            cases called
          · exact .inr (.inr dropped)

/-- The owner's accesses within a push. -/
theorem owner
    (invariant : PushInvariant task reducer state)
    (phase : PhaseInvariant N state.base.queue)
    {base : RangeTasks.State Task}
    (stepped :
      RangeTasks.step N needsDrop state.base .owner = some base) :
    PushInvariant task reducer
      { state with
        pushers := state.pushers ++ state.accepting
        openers := state.openers ++ state.opening
        base := base } := by
  cases RangeTasks.step_move stepped with
  | bound on | rehold on | visit on => cases on
  | @owner queue moved =>
      constructor
      case callers => exact invariant.callers.owner phase moved
      case pushing => exact invariant.pushing
      case kept => exact invariant.kept
      case unbatched =>
        intro future held kept' waits
        obtain ⟨isTask, isReducer, fresh⟩ :=
          invariant.unbatched future held kept' waits
        refine ⟨isTask, isReducer, ?_⟩
        intro member
        rcases List.mem_append.mp member with before | new
        · exact fresh before
        · have called : state.call = some future := by
            unfold State.accepting at new
            split at new
            · rwa [Option.mem_toList] at new
            · cases new
          obtain ⟨kept'', pushing⟩ := (invariant.pushing future).mpr called
          rw [waits] at pushing
          cases pushing
      case waiting =>
        intro future fresh
        exact invariant.waiting future fun member =>
          fresh (List.mem_append_left _ member)

/-- A refused push gives the task back to its future. -/
theorem finishRefused
    (invariant : PushInvariant task reducer state)
    {future : Nat}
    {held : Task}
    {kept : Control}
    {base : RangeTasks.State Task}
    (called : state.call = some future)
    (holds : state.futures future = .pushing kept)
    (given : state.base.call = some held)
    (at_ : state.base.queue.owner = .returning .queueFull)
    (stepped :
      RangeTasks.step N needsDrop state.base (.finish (some future)) =
        some base) :
    PushInvariant task reducer
      { state.setFuture future (.unbatched held kept) with
        call := none
        base := base } := by
  have isTask : held = task future := by
    have same : state.base.call = state.call.map task :=
      invariant.callers.given
    rw [given, called] at same
    exact Option.some.inj same
  have isReducer := invariant.kept future kept holds
  have fresh : future ∉ state.pushers :=
    invariant.callers.fresh_of_refused called at_
  cases RangeTasks.step_move stepped with
  | bound on | rehold on | visit on => cases on
  | finish moved =>
      constructor
      case callers => exact invariant.callers.finish moved
      case pushing =>
        intro other
        change
          (∃ kept', Function.update state.futures future
              (.unbatched held kept) other = .pushing kept') ↔
            none = some other
        by_cases same : other = future
        · subst same
          rw [Function.update_self]
          constructor
          · rintro ⟨kept', pushing⟩
            cases pushing
          · intro none_
            cases none_
        · rw [Function.update_of_ne same]
          constructor
          · rintro ⟨kept', pushing⟩
            exact
              (invariant.not_pushing called same kept' pushing).elim
          · intro none_
            cases none_
      case kept =>
        intro other kept' pushing
        change
          Function.update state.futures future
            (.unbatched held kept) other = _ at pushing
        by_cases same : other = future
        · subst same
          rw [Function.update_self] at pushing
          cases pushing
        · rw [Function.update_of_ne same] at pushing
          exact invariant.kept other kept' pushing
      case unbatched =>
        intro other held' kept' waits
        change
          Function.update state.futures future
            (.unbatched held kept) other = _ at waits
        by_cases same : other = future
        · subst same
          rw [Function.update_self] at waits
          cases waits
          exact ⟨isTask, isReducer, fresh⟩
        · rw [Function.update_of_ne same] at waits
          exact invariant.unbatched other held' kept' waits
      case waiting =>
        intro other otherFresh
        change
          Function.update state.futures future
              (.unbatched held kept) other = _ ∨
            _ ∨
            Function.update state.futures future
              (.unbatched held kept) other = _
        by_cases same : other = future
        · subst same
          rw [Function.update_self, isTask, isReducer]
          exact .inl rfl
        · rw [Function.update_of_ne same]
          rcases invariant.waiting other otherFresh with
            waits | alsoCalled | dropped
          · exact .inl waits
          · rw [called] at alsoCalled
            exact (same (Option.some.inj alsoCalled).symm).elim
          · exact .inr (.inr dropped)

/-- The push of an accepted task returns. -/
theorem finishAccepted
    (invariant : PushInvariant task reducer state)
    {future : Nat}
    {admission : Admission}
    {next : Future Task Result Control}
    {nones : List Nat}
    {base : RangeTasks.State Task}
    (called : state.call = some future)
    (at_ : state.base.queue.owner = .returning admission)
    (accepted : admission ≠ .queueFull)
    (late : next.isLate = true)
    (stepped :
      RangeTasks.step N needsDrop state.base (.finish none) =
        some base) :
    PushInvariant task reducer
      { state.setFuture future next with
        call := none
        nones := nones
        base := base } := by
  have member : future ∈ state.pushers :=
    invariant.callers.accepted_of_returning called at_ accepted
  cases RangeTasks.step_move stepped with
  | bound on | rehold on | visit on => cases on
  | finish moved =>
      constructor
      case callers => exact invariant.callers.finish moved
      case pushing =>
        intro other
        change
          (∃ kept', Function.update state.futures future next other =
              .pushing kept') ↔
            none = some other
        by_cases same : other = future
        · subst same
          rw [Function.update_self]
          constructor
          · rintro ⟨kept', pushing⟩
            rw [pushing] at late
            cases late
          · intro none_
            cases none_
        · rw [Function.update_of_ne same]
          constructor
          · rintro ⟨kept', pushing⟩
            exact
              (invariant.not_pushing called same kept' pushing).elim
          · intro none_
            cases none_
      case kept =>
        intro other kept' pushing
        change
          Function.update state.futures future next other = _
            at pushing
        by_cases same : other = future
        · subst same
          rw [Function.update_self] at pushing
          rw [pushing] at late
          cases late
        · rw [Function.update_of_ne same] at pushing
          exact invariant.kept other kept' pushing
      case unbatched =>
        intro other held' kept' waits
        change
          Function.update state.futures future next other = _
            at waits
        by_cases same : other = future
        · subst same
          rw [Function.update_self] at waits
          rw [waits] at late
          cases late
        · rw [Function.update_of_ne same] at waits
          exact invariant.unbatched other held' kept' waits
      case waiting =>
        intro other otherFresh
        have differs : other ≠ future := fun same =>
          otherFresh (same ▸ member)
        change
          Function.update state.futures future next other = _ ∨
            _ ∨
            Function.update state.futures future next other = _
        rw [Function.update_of_ne differs]
        rcases invariant.waiting other otherFresh with
          waits | alsoCalled | dropped
        · exact .inl waits
        · rw [called] at alsoCalled
          exact (differs (Option.some.inj alsoCalled).symm).elim
        · exact .inr (.inr dropped)

/-- Every step keeps the tasks where they are. -/
theorem move
    (invariant : PushInvariant task reducer state)
    (phase : PhaseInvariant N state.base.queue)
    (moved : Move N needsDrop act state after) :
    PushInvariant task reducer after := by
  cases moved with
  | push holds stepped =>
      exact invariant.push holds stepped
  | again holds =>
      exact { invariant with callers := invariant.callers }
  | owner stepped =>
      exact invariant.owner phase stepped
  | finishRefused called holds given at_ stepped =>
      exact invariant.finishRefused called holds given at_ stepped
  | finishJoined called holds at_ stepped =>
      refine invariant.finishAccepted called at_ ?_ rfl stepped
      intro full
      cases full
  | finishOpened called holds at_ stepped =>
      refine invariant.finishAccepted called at_ ?_ rfl stepped
      intro full
      cases full
  | @collect future batch kept middle base holds bounded stepped =>
      have first := (RangeTasks.step_move bounded).frame rfl
      have second := (RangeTasks.step_move stepped).frame rfl
      have callers := (invariant.callers.of_frame first).of_frame second
      apply invariant.of_late
      case callers => exact callers
      case futures => rfl
      case notPushing =>
        intro kept' pushing
        rw [holds] at pushing
        cases pushing
      case late => rfl
      case joined =>
        refine .inl (invariant.mem_pushers (by rw [holds]; rfl) ?_)
        rw [holds]
        intro dropped
        cases dropped
      case call => rfl
      case pushers => rfl
  | next holds acts stepped =>
      apply invariant.of_frame ((RangeTasks.step_move stepped).frame rfl)
        rfl
      case wasLate => rw [holds]; rfl
      case alive =>
        rw [holds]
        intro dropped
        cases dropped
      case late =>
        unfold resumed
        split <;> rfl
      case same => rfl
  | stop holds acts stepped | discard holds stepped =>
      apply invariant.of_frame ((RangeTasks.step_move stepped).frame rfl)
        rfl
      case wasLate => rw [holds]; rfl
      case alive =>
        rw [holds]
        intro dropped
        cases dropped
      case late => rfl
      case same => rfl
  | dropIdle holds =>
      apply invariant.of_late
      case callers => exact invariant.callers
      case futures => rfl
      case notPushing =>
        intro kept' pushing
        rcases holds with ⟨held, kept, waits⟩ | batched
        · rw [waits] at pushing
          cases pushing
        · rw [batched] at pushing
          cases pushing
      case joined => exact .inr rfl
      all_goals rfl
  | @destroy future batch action base holds on stepped =>
      have onBatch : action.batch? = some batch := by
        rcases on with on | on | ⟨retry, on⟩ <;> rw [on] <;> rfl
      apply invariant.of_frame
        ((RangeTasks.step_move stepped).frame onBatch)
      case futures =>
        exact (Function.update_eq_self future state.futures).symm
      case same => rfl
      all_goals
        cases at_ : state.futures future <;> rw [at_] at holds <;>
          cases holds
      all_goals first | rfl | (intro dropped; cases dropped)
  | @complete future batch next somes base holds stepped =>
      apply invariant.of_frame ((RangeTasks.step_move stepped).frame rfl)
        rfl
      case same => rfl
      all_goals
        rcases holds with
          ⟨result, holds, isNext, _⟩ | ⟨holds, isNext, _⟩ |
            ⟨holds, isNext, _⟩
      all_goals first | rw [holds] | rw [isNext]
      all_goals first | rfl | (intro dropped; cases dropped)

end PushInvariant

/-- In every run each future's task is where its future says. -/
theorem Reachable.pushInvariant
    {N : BufferSize width}
    {needsDrop : Bool}
    {act : Control → Reducers.Step Task Result Control}
    {task : Nat → Task}
    {reducer : Nat → Control}
    {state : State Task Result Control}
    (reachable : Reachable N needsDrop act task reducer state) :
    PushInvariant task reducer state := by
  induction reachable with
  | start =>
      exact .initial
  | next earlier _ taken inductionHypothesis =>
      have queue := RangeTasks.Reachable.queue (Reachable.base earlier)
      exact inductionHypothesis.move queue.phaseInvariant (step_move taken)

end StackQueue.BatchReduce
