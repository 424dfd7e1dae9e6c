import StackQueue.ReducePushes

namespace StackQueue.BatchReduce

open Queue RangeTasks RangeConsumers
open Callers (CallerInvariant)

/-!
# The ranges that `BatchReduce` futures hold

`RangeInvariant` follows every range: it is held by the one future whose push
opened it, and whatever its reducer goes on to return is what the reducer
returns for the tasks of the range, run from its start on them alone.
-/

variable {width : PointerWidth} {Task Result Control : Type}

/-- The range that the future holds. -/
def Future.batch? : Future Task Result Control → Option Nat
  | .collecting batch _ | .reducing batch _ | .returning batch _
  | .discarding batch => some batch
  | _ => none

/-- The polls that returned a result for a range. -/
def State.deliveries
    (state : State Task Result Control)
    (batch : Nat) :
    List (Delivery Result) :=
  state.somes.filter fun delivery => delivery.batch = batch

/-- A range has given no result, or the one that its reducer computes. -/
def Delivered
    (act : Control → Reducers.Step Task Result Control)
    (start : Control)
    (yields : List Task)
    (opener batch : Nat)
    (deliveries : List (Delivery Result)) :
    Prop :=
  deliveries = [] ∨
    ∃ result,
      Reducers.Runs act start yields result ∧
        deliveries = [⟨opener, batch, result⟩]

/--
What the future that opened a range has made of it: its reducer began at
`start`, the range yields `yields`, and that many tasks were taken from it.
-/
def Holds
    (act : Control → Reducers.Step Task Result Control)
    (start : Control)
    (owner : Owner (Option Task))
    (yields : List Task)
    (taken : Nat)
    (holder : Holder)
    (deliveries : List (Delivery Result))
    (opener batch : Nat) :
    Future Task Result Control → Prop
  | .unbatched _ _ | .undefined => False
  | .pushing _ =>
      owner = .returning (.opened batch) ∧
        holder = .unbounded ∧
        taken = 0 ∧
        deliveries = []
  | .collecting held control =>
      held = batch ∧
        control = start ∧
        holder = .unbounded ∧
        taken = 0 ∧
        deliveries = []
  | .reducing held control =>
      held = batch ∧
        (∃ iter, holder = .iterating iter) ∧
        (∀ result,
          Reducers.Runs act control (yields.drop taken) result →
          Reducers.Runs act start yields result) ∧
        deliveries = []
  | .returning held result =>
      held = batch ∧
        holder.isDestroying = true ∧
        (∀ value,
          result = some value → Reducers.Runs act start yields value) ∧
        deliveries = []
  | .discarding held =>
      held = batch ∧ holder.isDestroying = true ∧ deliveries = []
  | .batched | .dropped =>
      holder = .finished false ∧
        Delivered act start yields opener batch deliveries

/-- Which future holds which range. -/
structure RangeInvariant
    (width : PointerWidth)
    (act : Control → Reducers.Step Task Result Control)
    (reducer : Nat → Control)
    (state : State Task Result Control) : Prop where
  holds :
    ∀ (batch opener : Nat) (handle : Handle),
      state.base.queue.handles[batch]? = some handle →
      state.openers[batch]? = some opener →
      Holds act (reducer opener) state.base.queue.owner
        (yielded width state.base.pushed handle)
        (state.base.taken batch).length (state.base.holders batch)
        (state.deliveries batch) opener batch (state.futures opener)
  held :
    ∀ (future batch : Nat),
      (state.futures future).batch? = some batch →
      state.openers[batch]? = some future
  known :
    ∀ delivery ∈ state.somes,
      delivery.batch < state.base.queue.handles.length
  /-- An accepted future that opened no range returns `None`. -/
  joined :
    ∀ future ∈ state.pushers,
      future ∉ state.openers →
      state.call = some future ∨
        (future ∈ state.nones ∧
          (state.futures future = .batched ∨
            state.futures future = .dropped))

section Holding

variable
    {act : Control → Reducers.Step Task Result Control}
    {start : Control}
    {owner ownerAfter : Owner (Option Task)}
    {yields yieldsAfter : List Task}
    {taken opener batch : Nat}
    {holder : Holder}
    {deliveries : List (Delivery Result)}
    {future : Future Task Result Control}

/-- Off the program point of an opening push, the owner does not matter. -/
theorem Holds.of_owner
    (holds :
      Holds act start owner yields taken holder deliveries opener batch
        future)
    (returning :
      (∃ kept, future = .pushing kept) →
      owner = .returning (.opened batch) →
      ownerAfter = .returning (.opened batch)) :
    Holds act start ownerAfter yields taken holder deliveries opener
      batch future := by
  cases future with
  | pushing kept =>
      exact ⟨returning ⟨kept, rfl⟩ holds.1, holds.2⟩
  | _ =>
      exact holds

/-- What an unbounded range would yield does not matter. -/
theorem Holds.of_yields
    (holds :
      Holds act start owner yields taken holder deliveries opener batch
        future)
    (same : holder ≠ .unbounded → yieldsAfter = yields) :
    Holds act start owner yieldsAfter taken holder deliveries opener
      batch future := by
  cases future with
  | unbatched held kept | undefined =>
      exact holds
  | pushing kept | collecting held kept | discarding held =>
      exact holds
  | reducing held control =>
      obtain ⟨isHeld, ⟨iter, iterating⟩, rest⟩ := holds
      have unchanged :=
        same (by rw [iterating]; intro differs; cases differs)
      rw [unchanged]
      exact ⟨isHeld, ⟨iter, iterating⟩, rest⟩
  | returning held result =>
      obtain ⟨isHeld, destroying, rest⟩ := holds
      have unchanged := same (by
        intro differs
        rw [differs] at destroying
        cases destroying)
      rw [unchanged]
      exact ⟨isHeld, destroying, rest⟩
  | batched | dropped =>
      obtain ⟨finished, delivered⟩ := holds
      have unchanged :=
        same (by rw [finished]; intro differs; cases differs)
      rw [unchanged]
      exact ⟨finished, delivered⟩

end Holding

namespace RangeInvariant

variable
    {N : BufferSize width}
    {needsDrop : Bool}
    {act : Control → Reducers.Step Task Result Control}
    {task : Nat → Task}
    {reducer : Nat → Control}
    {state after : State Task Result Control}

theorem initial :
    RangeInvariant width act reducer
      (BatchReduce.initial task reducer :
        State Task Result Control) where
  holds := by
    simp [BatchReduce.initial, RangeTasks.initial, Queue.initial]
  held := by simp [BatchReduce.initial, Future.batch?]
  known := by simp [BatchReduce.initial]
  joined := by simp [BatchReduce.initial]

/-- What the future that opened a range has made of it. -/
theorem exists_holds
    (invariant : RangeInvariant width act reducer state)
    (callers : CallerInvariant task state.callers)
    {batch opener : Nat}
    (isOpener : state.openers[batch]? = some opener) :
    ∃ handle,
      state.base.queue.handles[batch]? = some handle ∧
        Holds act (reducer opener) state.base.queue.owner
          (yielded width state.base.pushed handle)
          (state.base.taken batch).length (state.base.holders batch)
          (state.deliveries batch) opener batch
          (state.futures opener) := by
  obtain ⟨handle, found⟩ := callers.exists_handle isOpener
  exact ⟨handle, found, invariant.holds batch opener handle found isOpener⟩

/-! ## Steps that leave the ranges alone -/

/-- A step of the owner that accepts no task and creates no range. -/
theorem of_same
    (invariant : RangeInvariant width act reducer state)
    (handles : after.base.queue.handles = state.base.queue.handles)
    (pushed : after.base.pushed = state.base.pushed)
    (taken : after.base.taken = state.base.taken)
    (holders : after.base.holders = state.base.holders)
    (futures : after.futures = state.futures)
    (call : after.call = state.call)
    (pushers : after.pushers = state.pushers)
    (openers : after.openers = state.openers)
    (somes : after.somes = state.somes)
    (nones : state.nones ⊆ after.nones)
    (returning :
      ∀ batch,
        state.base.queue.owner = .returning (.opened batch) ↔
          after.base.queue.owner = .returning (.opened batch)) :
    RangeInvariant width act reducer after where
  holds := by
    intro batch opener handle found isOpener
    rw [handles] at found
    rw [openers] at isOpener
    rw [pushed, taken, holders, State.deliveries, somes, futures]
    exact (invariant.holds batch opener handle found isOpener).of_owner
      fun _ => (returning batch).mp
  held := by
    rw [futures, openers]
    exact invariant.held
  known := by
    rw [somes, handles]
    exact invariant.known
  joined := by
    intro future member notOpener
    rw [pushers] at member
    rw [openers] at notOpener
    rw [call, futures]
    exact (invariant.joined future member notOpener).imp_right
      fun joined => ⟨nones joined.1, joined.2⟩

/-- A step of one future that takes no range further. -/
theorem of_future
    (invariant : RangeInvariant width act reducer state)
    {future : Nat}
    {next : Future Task Result Control}
    (futures :
      after.futures = Function.update state.futures future next)
    (handles : after.base.queue.handles = state.base.queue.handles)
    (pushed : after.base.pushed = state.base.pushed)
    (taken : after.base.taken = state.base.taken)
    (holders : after.base.holders = state.base.holders)
    (pushers : after.pushers = state.pushers)
    (openers : after.openers = state.openers)
    (somes : after.somes = state.somes)
    (nones : state.nones ⊆ after.nones)
    (onward :
      ∀ batch,
        next.batch? = some batch →
        state.openers[batch]? = some future)
    (holds :
      ∀ yields taken holder deliveries batch,
        state.openers[batch]? = some future →
        Holds act (reducer future) state.base.queue.owner yields taken
          holder deliveries future batch (state.futures future) →
        Holds act (reducer future) after.base.queue.owner yields taken
          holder deliveries future batch next)
    (others :
      (after.base.queue.owner = state.base.queue.owner ∧
          after.call = state.call) ∨
        ((∀ batch,
            after.base.queue.owner ≠ .returning (.opened batch)) ∧
          ∀ other,
            other ≠ future →
            state.call ≠ some other ∧
              ∀ kept, state.futures other ≠ .pushing kept))
    (joined :
      future ∈ state.pushers →
      future ∉ state.openers →
      after.call = some future ∨
        (future ∈ after.nones ∧
          (next = .batched ∨ next = .dropped))) :
    RangeInvariant width act reducer after := by
  have here : after.futures future = next := by
    rw [futures, Function.update_self]
  have elsewhere {other : Nat} (differs : other ≠ future) :
      after.futures other = state.futures other := by
    rw [futures, Function.update_of_ne differs]
  constructor
  case holds =>
    intro batch opener handle found isOpener
    rw [handles] at found
    rw [openers] at isOpener
    rw [pushed, taken, holders, State.deliveries, somes]
    have before := invariant.holds batch opener handle found isOpener
    by_cases same : opener = future
    · subst same
      rw [here]
      exact holds _ _ _ _ batch isOpener before
    · rw [elsewhere same]
      refine before.of_owner ?_
      rintro ⟨kept, pushing⟩ at_
      rcases others with ⟨owner, _⟩ | ⟨_, idle⟩
      · rw [owner]
        exact at_
      · exact ((idle opener same).2 kept pushing).elim
  case held =>
    intro other batch holding
    rw [openers]
    by_cases same : other = future
    · subst same
      rw [here] at holding
      exact onward batch holding
    · rw [elsewhere same] at holding
      exact invariant.held other batch holding
  case known =>
    rw [somes, handles]
    exact invariant.known
  case joined =>
    intro other member notOpener
    rw [pushers] at member
    rw [openers] at notOpener
    by_cases same : other = future
    · subst same
      rw [here]
      exact joined member notOpener
    · rw [elsewhere same]
      rcases invariant.joined other member notOpener with
        called | ⟨none_, late⟩
      · rcases others with ⟨_, call⟩ | ⟨_, idle⟩
        · rw [call]
          exact .inl called
        · exact ((idle other same).1 called).elim
      · exact .inr ⟨nones none_, late⟩

/-! ## Steps of one range -/

/-- A step of the range that a future holds. -/
theorem of_frame
    (invariant : RangeInvariant width act reducer state)
    (phase : PhaseInvariant N state.base.queue)
    (callers : CallerInvariant task state.callers)
    {future batch : Nat}
    {next : Future Task Result Control}
    (frame : Frame batch state.base after.base)
    (holding : (state.futures future).batch? = some batch)
    (futures :
      after.futures = Function.update state.futures future next)
    (call : after.call = state.call)
    (pushers : after.pushers = state.pushers)
    (openers : after.openers = state.openers)
    (nones : after.nones = state.nones)
    (deliveries :
      ∀ other,
        other ≠ batch →
        after.deliveries other = state.deliveries other)
    (known :
      ∀ delivery ∈ after.somes,
        delivery.batch = batch ∨ delivery ∈ state.somes)
    (onward : ∀ other, next.batch? = some other → other = batch)
    (holds :
      ∀ (handle : Handle) (yields : List Task),
        state.base.queue.handles[batch]? = some handle →
        (handle.isUnbounded = false →
          yields = yielded width state.base.pushed handle) →
        Holds act (reducer future) state.base.queue.owner
          (yielded width state.base.pushed handle)
          (state.base.taken batch).length (state.base.holders batch)
          (state.deliveries batch) future batch (state.futures future) →
        Holds act (reducer future) state.base.queue.owner yields
          (after.base.taken batch).length (after.base.holders batch)
          (after.deliveries batch) future batch next) :
    RangeInvariant width act reducer after := by
  have isOpener := invariant.held future batch holding
  obtain ⟨old, foundOld, holdsOld⟩ :=
    invariant.exists_holds callers isOpener
  obtain ⟨new, handles, sameFirst, sameLast⟩ :=
    frame.handles.handle foundOld
  have inBounds := (List.getElem?_eq_some_iff.mp foundOld).1
  have length :
      after.base.queue.handles.length =
        state.base.queue.handles.length := by
    rw [handles, List.length_set]
  have here : after.futures future = next := by
    rw [futures, Function.update_self]
  have elsewhere {other : Nat} (differs : other ≠ future) :
      after.futures other = state.futures other := by
    rw [futures, Function.update_of_ne differs]
  constructor
  case holds =>
    intro other opener handle found opens
    rw [openers] at opens
    rw [handles] at found
    rw [frame.owner, frame.pushed]
    rcases ListUpdate.getElem?_set_cases found with
      ⟨same, isNew⟩ | ⟨differs, before⟩
    · subst same
      rw [isOpener] at opens
      cases opens
      rw [here]
      apply holds old _ foundOld _ holdsOld
      intro bounded
      rw [isNew]
      exact yielded_of_ends sameFirst (sameLast bounded) _
    · have notFuture : opener ≠ future := by
        intro same
        rw [same] at opens
        exact differs (callers.opener_unique phase opens isOpener)
      rw [elsewhere notFuture, frame.taken other differs,
        frame.holders other differs, deliveries other differs]
      exact invariant.holds other opener handle before opens
  case held =>
    intro other held holdsOther
    rw [openers]
    by_cases same : other = future
    · subst same
      rw [here] at holdsOther
      rw [onward held holdsOther]
      exact isOpener
    · rw [elsewhere same] at holdsOther
      exact invariant.held other held holdsOther
  case known =>
    intro delivery member
    rw [length]
    rcases known delivery member with ofBatch | before
    · rw [ofBatch]
      exact inBounds
    · exact invariant.known delivery before
  case joined =>
    intro other member notOpener
    rw [pushers] at member
    rw [openers] at notOpener
    have differs : other ≠ future := by
      intro same
      rw [same] at notOpener
      exact notOpener (List.mem_of_getElem? isOpener)
    rw [call, nones, elsewhere differs]
    exact invariant.joined other member notOpener

/-! ## The owner -/

/-- The `fetch_add` accepts a task. -/
theorem add
    (invariant : RangeInvariant width act reducer state)
    (phase : PhaseInvariant N state.base.queue)
    (base : HolderInvariant N needsDrop state.base)
    (pushes : PushInvariant task reducer state)
    {index : Nat}
    {future : Nat}
    {newest : List Task}
    (at_ : state.base.queue.owner = .adding index)
    (called : state.call = some future)
    (handles : after.base.queue.handles = state.base.queue.handles)
    (pushed : after.base.pushed = state.base.pushed ++ newest)
    (taken : after.base.taken = state.base.taken)
    (holders : after.base.holders = state.base.holders)
    (pushers : after.pushers = state.pushers ++ [future])
    (openers : after.openers = state.openers)
    (call : after.call = state.call)
    (futures : after.futures = state.futures)
    (somes : after.somes = state.somes)
    (nones : after.nones = state.nones) :
    RangeInvariant width act reducer after := by
  have count : state.base.pushed.length = state.base.queue.accepted :=
    pushes.callers.pushed_length
  constructor
  case holds =>
    intro batch opener handle found isOpener
    rw [handles] at found
    rw [openers] at isOpener
    rw [pushed, taken, holders, State.deliveries, somes, futures]
    have before := invariant.holds batch opener handle found isOpener
    have onward :
        Holds act (reducer opener) after.base.queue.owner
          (yielded width state.base.pushed handle)
          (state.base.taken batch).length (state.base.holders batch)
          (state.deliveries batch) opener batch
          (state.futures opener) := by
      refine before.of_owner fun _ returning => ?_
      rw [at_] at returning
      cases returning
    apply onward.of_yields
    intro begun
    have bounded := base.bounded found begun
    apply yielded_append
    rw [count]
    exact
      (phase.bounded_positions (List.mem_of_getElem? found) bounded).2
  case held =>
    rw [futures, openers]
    exact invariant.held
  case known =>
    rw [somes, handles]
    exact invariant.known
  case joined =>
    intro other member notOpener
    rw [openers] at notOpener
    rw [call, futures, nones]
    rw [pushers] at member
    rcases List.mem_append.mp member with earlier | isNew
    · exact invariant.joined other earlier notOpener
    · rw [List.mem_singleton.mp isNew]
      exact .inl called

/-- The owner creates the range of the push in progress. -/
theorem occupy
    (invariant : RangeInvariant width act reducer state)
    (base : HolderInvariant N needsDrop state.base)
    (pushes : PushInvariant task reducer state)
    {future : Nat}
    {created : Handle}
    (called : state.call = some future)
    (notReturning :
      ∀ batch,
        state.base.queue.owner ≠ .returning (.opened batch))
    (handles :
      after.base.queue.handles = state.base.queue.handles ++ [created])
    (owner :
      after.base.queue.owner =
        .returning (.opened state.base.queue.handles.length))
    (pushed : after.base.pushed = state.base.pushed)
    (taken : after.base.taken = state.base.taken)
    (holders : after.base.holders = state.base.holders)
    (pushers : after.pushers = state.pushers)
    (openers : after.openers = state.openers ++ [future])
    (call : after.call = state.call)
    (futures : after.futures = state.futures)
    (somes : after.somes = state.somes)
    (nones : after.nones = state.nones) :
    RangeInvariant width act reducer after := by
  obtain ⟨kept, isPushing⟩ := (pushes.pushing future).mpr called
  have opened : state.openers.length = state.base.queue.handles.length :=
    pushes.callers.opened
  have newOpener :
      (state.openers ++ [future])[state.base.queue.handles.length]? =
        some future := by
    rw [← opened]
    exact List.getElem?_concat_length
  constructor
  case holds =>
    intro batch opener handle found isOpener
    rw [handles] at found
    rw [openers] at isOpener
    rw [pushed, taken, holders, State.deliveries, somes, futures]
    rcases ListUpdate.getElem?_concat_cases found with
      earlier | ⟨isNew, isCreated⟩
    · have inBounds := (List.getElem?_eq_some_iff.mp earlier).1
      rw [← opened] at inBounds
      rw [List.getElem?_append_left inBounds] at isOpener
      apply (invariant.holds batch opener handle earlier
        isOpener).of_owner
      exact fun _ returning => (notReturning batch returning).elim
    · rw [isNew, newOpener] at isOpener
      cases isOpener
      have fresh := base.fresh batch (by rw [isNew])
      rw [isPushing, fresh.1, fresh.2, isNew]
      refine ⟨owner, rfl, rfl, ?_⟩
      apply List.filter_eq_nil_iff.mpr
      intro delivery member same
      have below := invariant.known delivery member
      rw [of_decide_eq_true same] at below
      exact Nat.lt_irrefl _ below
  case held =>
    intro other batch holding
    rw [futures] at holding
    rw [openers]
    have isOpener := invariant.held other batch holding
    rw [List.getElem?_append_left
      (List.getElem?_eq_some_iff.mp isOpener).1]
    exact isOpener
  case known =>
    intro delivery member
    rw [somes] at member
    rw [handles, List.length_append]
    exact Nat.lt_add_right _ (invariant.known delivery member)
  case joined =>
    intro other member notOpener
    rw [pushers] at member
    rw [openers] at notOpener
    rw [call, nones, futures]
    exact invariant.joined other member
      fun isOpener => notOpener (List.mem_append_left _ isOpener)

/-- The owner's accesses within a push. -/
theorem owner
    (invariant : RangeInvariant width act reducer state)
    (phase : PhaseInvariant N state.base.queue)
    (base : HolderInvariant N needsDrop state.base)
    (pushes : PushInvariant task reducer state)
    {baseAfter : RangeTasks.State Task}
    (stepped :
      RangeTasks.step N needsDrop state.base .owner = some baseAfter) :
    RangeInvariant width act reducer
      { state with
        pushers := state.pushers ++ state.accepting
        openers := state.openers ++ state.opening
        base := baseAfter } := by
  have ownerAt :
      Callers.OwnerAt state.call state.pushers state.openers
        state.base.queue.owner :=
    pushes.callers.ownerAt
  cases RangeTasks.step_move stepped with
  | bound on | rehold on | visit on => cases on
  | @owner queue moved =>
      cases moved with
      | @add index at_ =>
          rw [at_] at ownerAt
          obtain ⟨future, called, _⟩ := ownerAt
          have accepting : state.accepting = [future] := by
            rw [State.accepting, at_, called]
            rfl
          have opening : state.opening = [] := by
            rw [State.opening, at_]
          rw [accepting, opening, List.append_nil]
          apply invariant.add phase base pushes at_ called
          all_goals rfl
      | @occupy index baseSlot at_ =>
          rw [at_] at ownerAt
          obtain ⟨future, called, _⟩ := ownerAt
          have accepting : state.accepting = [] := by
            rw [State.accepting, at_]
          have opening : state.opening = [future] := by
            rw [State.opening, at_, called]
            rfl
          have quiet : state.base.accepting = [] := by
            rw [RangeTasks.State.accepting, at_]
          rw [accepting, opening, List.append_nil]
          apply invariant.occupy base pushes called
          case notReturning =>
            intro batch returning
            rw [at_] at returning
            cases returning
          case pushed =>
            change state.base.pushed ++ state.base.accepting = _
            rw [quiet, List.append_nil]
          case handles => rfl
          all_goals rfl
      | enterAtBoundary at_ _ | enterInside at_ _ | cachedFree at_ _
      | cachedBusy at_ _ | loadedFree at_ _ | loadedBusy at_ _
      | write at_ | replaceJoined at_ _ | replaceOpening at_ _ =>
          have accepting : state.accepting = [] := by
            rw [State.accepting, at_]
          have opening : state.opening = [] := by
            rw [State.opening, at_]
          have quiet : state.base.accepting = [] := by
            rw [RangeTasks.State.accepting, at_]
          rw [accepting, opening, List.append_nil, List.append_nil]
          apply invariant.of_same
          case pushed =>
            change state.base.pushed ++ state.base.accepting = _
            rw [quiet, List.append_nil]
          case nones => exact List.Subset.refl _
          case returning =>
            intro batch
            rw [at_]
            constructor
            · intro returning
              cases returning
            · intro returning
              cases returning
          all_goals rfl

/-! ## The futures -/

/-- A future gives its task to `push`. -/
theorem push
    (invariant : RangeInvariant width act reducer state)
    (pushes : PushInvariant task reducer state)
    {future : Nat}
    {held : Task}
    {kept : Control}
    {base : RangeTasks.State Task}
    (holds : state.futures future = .unbatched held kept)
    (stepped :
      RangeTasks.step N needsDrop state.base (.push held) = some base) :
    RangeInvariant width act reducer
      { state.setFuture future (.pushing kept) with
        call := some future
        base := base } := by
  have fresh := (pushes.unbatched future held kept holds).2.2
  cases RangeTasks.step_move stepped with
  | bound on | rehold on | visit on => cases on
  | push idle moved =>
      have noCall : state.call = none :=
        pushes.callers.call_of_given idle
      cases moved with
      | call at_ =>
          apply invariant.of_future
          case futures => rfl
          case nones => exact List.Subset.refl _
          case onward =>
            intro batch onward
            cases onward
          case holds =>
            intro _ _ _ _ batch isOpener
            exact (fresh (pushes.callers.mem_pushers isOpener)).elim
          case others =>
            refine .inr ⟨?_, ?_⟩
            · intro batch returning
              cases returning
            · intro other _
              rw [noCall]
              refine ⟨Option.some_ne_none other |>.symm, ?_⟩
              intro kept' pushing
              have called := (pushes.pushing other).mp ⟨kept', pushing⟩
              rw [noCall] at called
              cases called
          case joined =>
            intro member
            exact (fresh member).elim
          all_goals rfl

/-- A `push` that did not open a range returns. -/
theorem finish
    (invariant : RangeInvariant width act reducer state)
    (pushes : PushInvariant task reducer state)
    {future : Nat}
    {kept : Control}
    {admission : Admission}
    {waker : Option Nat}
    {next : Future Task Result Control}
    {nones : List Nat}
    {base : RangeTasks.State Task}
    (called : state.call = some future)
    (isPushing : state.futures future = .pushing kept)
    (at_ : state.base.queue.owner = .returning admission)
    (onward :
      ∀ batch,
        next.batch? = some batch →
        state.openers[batch]? = some future)
    (holds :
      ∀ yields taken holder deliveries batch,
        admission = .opened batch →
        Holds act (reducer future) state.base.queue.owner yields taken
          holder deliveries future batch (.pushing kept) →
        Holds act (reducer future) .idle yields taken holder deliveries
          future batch next)
    (noneOf : state.nones ⊆ nones)
    (joined :
      future ∈ state.pushers →
      future ∉ state.openers →
      future ∈ nones ∧ (next = .batched ∨ next = .dropped))
    (stepped :
      RangeTasks.step N needsDrop state.base (.finish waker) =
        some base) :
    RangeInvariant width act reducer
      { state.setFuture future next with
        call := none
        nones := nones
        base := base } := by
  cases RangeTasks.step_move stepped with
  | bound on | rehold on | visit on => cases on
  | @finish _ queue moved =>
      have shape :
          queue.handles = state.base.queue.handles ∧
            queue.owner = .idle := by
        cases moved <;> exact ⟨rfl, rfl⟩
      apply invariant.of_future
      case futures => rfl
      case handles => exact shape.1
      case nones => exact noneOf
      case onward => exact onward
      case holds =>
        intro yields taken holder deliveries batch _ before
        change
          Holds act (reducer future) queue.owner yields taken holder
            deliveries future batch next
        rw [shape.2]
        rw [isPushing] at before
        apply holds yields taken holder deliveries batch _ before
        have opened := before.1
        rw [at_] at opened
        cases opened
        rfl
      case others =>
        refine .inr ⟨?_, ?_⟩
        · intro batch returning
          change queue.owner = _ at returning
          rw [shape.2] at returning
          cases returning
        · intro other differs
          refine ⟨?_, pushes.not_pushing called differs⟩
          intro same
          rw [called] at same
          exact differs (Option.some.inj same).symm
      case joined =>
        exact fun member notOpener => .inr (joined member notOpener)
      all_goals rfl

/-- A future is dropped that holds no range. -/
theorem dropIdle
    (invariant : RangeInvariant width act reducer state)
    (pushes : PushInvariant task reducer state)
    {future : Nat}
    (holds :
      (∃ held kept, state.futures future = .unbatched held kept) ∨
        state.futures future = .batched) :
    RangeInvariant width act reducer
      (state.setFuture future .dropped) := by
  apply invariant.of_future
  case futures => rfl
  case nones => exact List.Subset.refl _
  case onward =>
    intro batch onward
    cases onward
  case holds =>
    intro _ _ _ _ batch _ before
    rcases holds with ⟨held, kept, waits⟩ | batched
    · rw [waits] at before
      exact before.elim
    · rw [batched] at before
      exact before
  case others => exact .inl ⟨rfl, rfl⟩
  case joined =>
    intro member notOpener
    rcases holds with ⟨held, kept, waits⟩ | batched
    · exact
        ((pushes.unbatched future held kept waits).2.2 member).elim
    · rcases invariant.joined future member notOpener with
        called | ⟨none_, _⟩
      · exact .inl called
      · exact .inr ⟨none_, .inr rfl⟩
  all_goals rfl

/-! ## The futures that hold ranges -/

/-- A step of a future and its range that returns no result. -/
theorem step_range
    (invariant : RangeInvariant width act reducer state)
    (phase : PhaseInvariant N state.base.queue)
    (callers : CallerInvariant task state.callers)
    {future batch : Nat}
    {next : Future Task Result Control}
    {base : RangeTasks.State Task}
    (frame : Frame batch state.base base)
    (holding : (state.futures future).batch? = some batch)
    (onward : ∀ other, next.batch? = some other → other = batch)
    (holds :
      ∀ (handle : Handle) (yields : List Task),
        state.base.queue.handles[batch]? = some handle →
        (handle.isUnbounded = false →
          yields = yielded width state.base.pushed handle) →
        Holds act (reducer future) state.base.queue.owner
          (yielded width state.base.pushed handle)
          (state.base.taken batch).length (state.base.holders batch)
          (state.deliveries batch) future batch (state.futures future) →
        Holds act (reducer future) state.base.queue.owner yields
          (base.taken batch).length (base.holders batch)
          (state.deliveries batch) future batch next) :
    RangeInvariant width act reducer
      { state.setFuture future next with base := base } := by
  apply invariant.of_frame phase callers frame holding
  case deliveries => exact fun _ _ => rfl
  case known => exact fun _ member => .inr member
  case onward => exact onward
  case holds => exact holds
  all_goals rfl

/-- The poll in the `Collecting` state starts the reducer. -/
theorem collect
    (invariant : RangeInvariant width act reducer state)
    (phase : PhaseInvariant N state.base.queue)
    (callers : CallerInvariant task state.callers)
    {future batch : Nat}
    {kept : Control}
    {middle base : RangeTasks.State Task}
    (collecting : state.futures future = .collecting batch kept)
    (bounded :
      RangeTasks.step N needsDrop state.base (.intoBounded batch) =
        some middle)
    (stepped :
      RangeTasks.step N needsDrop middle (.intoIter batch) = some base) :
    RangeInvariant width act reducer
      { state.setFuture future (.reducing batch kept) with
        base := base } := by
  have holding : (state.futures future).batch? = some batch := by
    rw [collecting]
    rfl
  obtain ⟨_, _, before⟩ :=
    invariant.exists_holds callers
      (invariant.held future batch holding)
  rw [collecting] at before
  obtain ⟨_, isStart, unbounded, untouched, undelivered⟩ := before
  have first := (RangeTasks.step_move bounded).frame rfl
  obtain ⟨⟨range, held⟩, takenSame⟩ :=
    holder_of_intoBounded unbounded bounded
  have isBase := of_intoIter held stepped
  subst isBase
  have frame :
      Frame batch state.base
        (middle.setHolder batch (.iterating (intoIter range))) := by
    refine ⟨first.owner, first.cells, first.call, first.pushed,
      first.handles, ?_, first.taken⟩
    intro other differs
    exact
      (Function.update_of_ne differs _ _).trans
        (first.holders other differs)
  apply invariant.step_range phase callers frame holding
  case onward =>
    intro other onward
    cases onward
    rfl
  case holds =>
    intro handle yields found _ _
    refine ⟨rfl, ⟨intoIter range, ?_⟩, ?_, undelivered⟩
    · exact Function.update_self batch _ middle.holders
    · intro result runs
      change
        Reducers.Runs act kept
          (yields.drop (middle.taken batch).length) result at runs
      rw [takenSame, untouched, List.drop_zero, isStart] at runs
      exact runs

/-- The reducer is given what its iterator yields. -/
theorem next
    (invariant : RangeInvariant width act reducer state)
    (call : CallInvariant N state.base)
    (phase : PhaseInvariant N state.base.queue)
    (base : HolderInvariant N needsDrop state.base)
    (window : state.base.queue.LiveInWindow N)
    (callers : CallerInvariant task state.callers)
    {future batch : Nat}
    {control : Control}
    {resume : Option Task → Control}
    {baseAfter : RangeTasks.State Task}
    (reducing : state.futures future = .reducing batch control)
    (acts : act control = .next resume)
    (stepped :
      RangeTasks.step N needsDrop state.base (.next batch) =
        some baseAfter) :
    RangeInvariant width act reducer
      { state.setFuture future
          (resumed batch resume (drawn N state.base batch)) with
        base := baseAfter } := by
  have holding : (state.futures future).batch? = some batch := by
    rw [reducing]
    rfl
  have isOpener := invariant.held future batch holding
  obtain ⟨handle, found, before⟩ :=
    invariant.exists_holds callers isOpener
  rw [reducing] at before
  obtain ⟨_, ⟨iter, iterating⟩, goesOn, undelivered⟩ := before
  have bounded : handle.isUnbounded = false := by
    apply base.bounded found
    rw [iterating]
    intro unbounded
    cases unbounded
  have frame := (RangeTasks.step_move stepped).frame rfl
  rcases of_next iterating stepped with ⟨more, isAfter⟩ | ⟨atEnd, isAfter⟩
  · subst isAfter
    obtain ⟨item, stored, remaining⟩ :=
      yields_item base call phase window found iterating more
    have isDrawn : drawn N state.base batch = .item item := by
      simp [drawn, iterating, more, stored]
    rw [isDrawn]
    apply invariant.step_range phase callers frame holding
    case onward =>
      intro other onward
      cases onward
      rfl
    case holds =>
      intro _ yields foundAgain yieldsSame _
      rw [found] at foundAgain
      cases foundAgain
      have length :
          ((visit N state.base batch iter .iterating).taken
              batch).length =
            (state.base.taken batch).length + 1 := by
        rw [visit_taken, List.length_append]
        rfl
      rw [length, yieldsSame bounded]
      refine ⟨rfl, ⟨{ iter with current := iter.current + 1 }, ?_⟩, ?_,
        undelivered⟩
      · exact Function.update_self batch _ _
      · intro result runs
        apply goesOn result
        rw [remaining]
        exact .item acts runs
  · subst isAfter
    have remaining :=
      yields_none base call phase window found iterating atEnd
    have isDrawn : drawn N state.base batch = .exhausted := by
      simp [drawn, iterating, atEnd]
    rw [isDrawn]
    apply invariant.step_range phase callers frame holding
    case onward =>
      intro other onward
      cases onward
      rfl
    case holds =>
      intro _ yields foundAgain yieldsSame _
      rw [found] at foundAgain
      cases foundAgain
      rw [yieldsSame bounded]
      refine ⟨rfl, ⟨iter, iterating⟩, ?_, undelivered⟩
      intro result runs
      apply goesOn result
      rw [remaining] at runs ⊢
      exact .exhausted acts runs

/-- The reducer returns or panics. -/
theorem stop
    (invariant : RangeInvariant width act reducer state)
    (phase : PhaseInvariant N state.base.queue)
    (base : HolderInvariant N needsDrop state.base)
    (callers : CallerInvariant task state.callers)
    {future batch : Nat}
    {control : Control}
    {result : Option Result}
    {baseAfter : RangeTasks.State Task}
    (reducing : state.futures future = .reducing batch control)
    (acts : ∀ value, result = some value → act control = .done value)
    (stepped :
      RangeTasks.step N needsDrop state.base (.drop batch) =
        some baseAfter) :
    RangeInvariant width act reducer
      { state.setFuture future (.returning batch result) with
        base := baseAfter } := by
  have holding : (state.futures future).batch? = some batch := by
    rw [reducing]
    rfl
  have frame := (RangeTasks.step_move stepped).frame rfl
  apply invariant.step_range phase callers frame holding
  case onward =>
    intro other onward
    cases onward
    rfl
  case holds =>
    intro handle yields found yieldsSame before
    rw [reducing] at before
    obtain ⟨_, ⟨iter, iterating⟩, goesOn, undelivered⟩ := before
    have bounded : handle.isUnbounded = false := by
      apply base.bounded found
      rw [iterating]
      intro unbounded
      cases unbounded
    have isAfter := of_drop iterating stepped
    subst isAfter
    rw [yieldsSame bounded]
    refine ⟨rfl, ?_, ?_, undelivered⟩
    · exact
        congrArg Holder.isDestroying
          (Function.update_self batch _ state.base.holders)
    · intro value isResult
      exact goesOn value (.done (acts value isResult))

/-- A future is dropped with its range. -/
theorem discard
    (invariant : RangeInvariant width act reducer state)
    (phase : PhaseInvariant N state.base.queue)
    (callers : CallerInvariant task state.callers)
    {future batch : Nat}
    {kept : Control}
    {base : RangeTasks.State Task}
    (collecting : state.futures future = .collecting batch kept)
    (stepped :
      RangeTasks.step N needsDrop state.base (.dropUnbounded batch) =
        some base) :
    RangeInvariant width act reducer
      { state.setFuture future (.discarding batch) with
        base := base } := by
  have holding : (state.futures future).batch? = some batch := by
    rw [collecting]
    rfl
  have frame := (RangeTasks.step_move stepped).frame rfl
  apply invariant.step_range phase callers frame holding
  case onward =>
    intro other onward
    cases onward
    rfl
  case holds =>
    intro handle yields found yieldsSame before
    rw [collecting] at before
    obtain ⟨_, _, unbounded, _, undelivered⟩ := before
    obtain ⟨iter, dropping⟩ := holder_of_dropUnbounded unbounded stepped
    refine ⟨rfl, ?_, undelivered⟩
    rw [dropping]
    rfl

/-- The accesses of a destructor change nothing but the range. -/
theorem destroy
    (invariant : RangeInvariant width act reducer state)
    (phase : PhaseInvariant N state.base.queue)
    (base : HolderInvariant N needsDrop state.base)
    (callers : CallerInvariant task state.callers)
    {future batch : Nat}
    {action : RangeTasks.Action Task}
    {baseAfter : RangeTasks.State Task}
    (destroys : (state.futures future).destroying = some batch)
    (on :
      action = .dropCell batch ∨
        action = .release batch ∨
          ∃ retry, action = .steal batch retry)
    (stepped :
      RangeTasks.step N needsDrop state.base action = some baseAfter) :
    RangeInvariant width act reducer { state with base := baseAfter } := by
  have onBatch : action.batch? = some batch := by
    rcases on with on | on | ⟨retry, on⟩ <;> rw [on] <;> rfl
  have holding : (state.futures future).batch? = some batch := by
    cases at_ : state.futures future <;> rw [at_] at destroys <;>
      cases destroys <;> rfl
  have frame := (RangeTasks.step_move stepped).frame onBatch
  apply invariant.of_frame phase callers frame holding
  case futures =>
    exact (Function.update_eq_self future state.futures).symm
  case deliveries => exact fun _ _ => rfl
  case known => exact fun _ member => .inr member
  case onward =>
    intro other onward
    rw [holding] at onward
    cases onward
    rfl
  case holds =>
    intro handle yields found yieldsSame before
    have bounded
        (destroying :
          (state.base.holders batch).isDestroying = true) :
        handle.isUnbounded = false := by
      apply base.bounded found
      intro unbounded
      rw [unbounded] at destroying
      cases destroying
    cases at_ : state.futures future with
    | returning held result =>
        rw [at_] at before
        obtain ⟨isHeld, destroying, results, undelivered⟩ := before
        rw [yieldsSame (bounded destroying)]
        exact ⟨isHeld, isDestroying_of_step destroying on stepped,
          results, undelivered⟩
    | discarding held =>
        rw [at_] at before
        obtain ⟨isHeld, destroying, undelivered⟩ := before
        exact ⟨isHeld, isDestroying_of_step destroying on stepped,
          undelivered⟩
    | _ =>
        rw [at_] at destroys
        cases destroys
  all_goals rfl

/-- The destructor of a range returns, and what called it. -/
theorem complete
    (invariant : RangeInvariant width act reducer state)
    (phase : PhaseInvariant N state.base.queue)
    (base : HolderInvariant N needsDrop state.base)
    (callers : CallerInvariant task state.callers)
    {future batch : Nat}
    {next : Future Task Result Control}
    {somes : List (Delivery Result)}
    {baseAfter : RangeTasks.State Task}
    (holds :
      (∃ result,
        state.futures future = .returning batch (some result) ∧
          next = .batched ∧
          somes = state.somes ++ [⟨future, batch, result⟩]) ∨
        (state.futures future = .returning batch none ∧
          next = .batched ∧
          somes = state.somes) ∨
        (state.futures future = .discarding batch ∧
          next = .dropped ∧
          somes = state.somes))
    (stepped :
      RangeTasks.step N needsDrop state.base (.complete batch) =
        some baseAfter) :
    RangeInvariant width act reducer
      { state.setFuture future next with
        somes := somes
        base := baseAfter } := by
  have holding : (state.futures future).batch? = some batch := by
    rcases holds with ⟨result, at_, _⟩ | ⟨at_, _⟩ | ⟨at_, _⟩
    · rw [at_]
      rfl
    · rw [at_]
      rfl
    · rw [at_]
      rfl
  have isNext : next = .batched ∨ next = .dropped := by
    rcases holds with
      ⟨result, _, isNext, _⟩ | ⟨_, isNext, _⟩ | ⟨_, isNext, _⟩
    · exact .inl isNext
    · exact .inl isNext
    · exact .inr isNext
  have newest :
      ∃ more,
        somes = state.somes ++ more ∧
          ∀ delivery ∈ more, delivery.batch = batch := by
    rcases holds with
      ⟨result, _, _, isSomes⟩ | ⟨_, _, isSomes⟩ | ⟨_, _, isSomes⟩
    · refine ⟨_, isSomes, ?_⟩
      intro delivery member
      rw [List.mem_singleton.mp member]
    · exact ⟨[], by rw [isSomes, List.append_nil], by simp⟩
    · exact ⟨[], by rw [isSomes, List.append_nil], by simp⟩
  have frame := (RangeTasks.step_move stepped).frame rfl
  apply invariant.of_frame phase callers frame holding
  case futures => rfl
  case deliveries =>
    intro other differs
    obtain ⟨more, isSomes, ofBatch⟩ := newest
    change somes.filter _ = state.somes.filter _
    rw [isSomes, List.filter_append]
    have none_ :
        more.filter (fun delivery => delivery.batch = other) = [] := by
      apply List.filter_eq_nil_iff.mpr
      intro delivery member same
      rw [ofBatch delivery member] at same
      exact differs (of_decide_eq_true same).symm
    rw [none_, List.append_nil]
  case known =>
    obtain ⟨more, isSomes, ofBatch⟩ := newest
    intro delivery member
    change delivery ∈ somes at member
    rw [isSomes] at member
    exact (List.mem_append.mp member).symm.imp_left
      (ofBatch delivery)
  case onward =>
    intro other onward
    rcases isNext with isNext | isNext <;> rw [isNext] at onward <;>
      cases onward
  case holds =>
    intro handle yields found yieldsSame before
    have destroying :
        (state.base.holders batch).isDestroying = true := by
      rcases holds with ⟨result, at_, _⟩ | ⟨at_, _⟩ | ⟨at_, _⟩
      · rw [at_] at before
        exact before.2.1
      · rw [at_] at before
        exact before.2.1
      · rw [at_] at before
        exact before.2.1
    have bounded : handle.isUnbounded = false := by
      apply base.bounded found
      intro unbounded
      rw [unbounded] at destroying
      cases destroying
    obtain ⟨_, isAfter⟩ := of_complete destroying stepped
    subst isAfter
    have finished :
        (state.base.setHolder batch (.finished false)).holders batch =
          .finished false :=
      Function.update_self batch _ state.base.holders
    rw [yieldsSame bounded]
    rcases holds with
      ⟨result, at_, isNext, isSomes⟩ | ⟨at_, isNext, isSomes⟩ |
        ⟨at_, isNext, isSomes⟩
    · subst isNext
      rw [at_] at before
      obtain ⟨_, _, results, undelivered⟩ := before
      refine ⟨finished, .inr ⟨result, results result rfl, ?_⟩⟩
      change somes.filter _ = _
      rw [isSomes, List.filter_append]
      change state.deliveries batch ++ _ = _
      rw [undelivered]
      simp
    · subst isNext isSomes
      rw [at_] at before
      exact ⟨finished, .inl before.2.2.2⟩
    · subst isNext isSomes
      rw [at_] at before
      exact ⟨finished, .inl before.2.2⟩
  all_goals rfl

/-- Every step keeps the ranges with their futures. -/
theorem move
    (invariant : RangeInvariant width act reducer state)
    (call : CallInvariant N state.base)
    (phase : PhaseInvariant N state.base.queue)
    (base : HolderInvariant N needsDrop state.base)
    (window : state.base.queue.LiveInWindow N)
    (pushes : PushInvariant task reducer state)
    (moved : Move N needsDrop act state after) :
    RangeInvariant width act reducer after := by
  have callers := pushes.callers
  cases moved with
  | push holds stepped =>
      exact invariant.push pushes holds stepped
  | again holds =>
      exact invariant.of_same rfl rfl rfl rfl rfl rfl rfl rfl rfl
        (List.subset_append_left _ _) (fun _ => Iff.rfl)
  | owner stepped =>
      exact invariant.owner phase base pushes stepped
  | @finishRefused future held kept _ called holds given at_ stepped =>
      apply invariant.finish pushes called holds at_
      case noneOf => exact List.Subset.refl _
      case onward =>
        intro batch onward
        cases onward
      case holds =>
        intro _ _ _ _ batch opened
        cases opened
      case joined =>
        exact fun member =>
          (callers.fresh_of_refused called at_ member).elim
      case stepped => exact stepped
  | finishJoined called holds at_ stepped =>
      apply invariant.finish pushes called holds at_
      case noneOf => exact List.subset_append_left _ _
      case onward =>
        intro batch onward
        cases onward
      case holds =>
        intro _ _ _ _ batch opened
        cases opened
      case joined =>
        intro _ _
        exact
          ⟨List.mem_append_right _ (List.mem_singleton_self _), .inl rfl⟩
      case stepped => exact stepped
  | @finishOpened future batch kept _ called holds at_ stepped =>
      have isOpener : state.openers[batch]? = some future :=
        callers.opener_of_opened called at_
      apply invariant.finish pushes called holds at_
      case noneOf => exact List.Subset.refl _
      case onward =>
        intro other onward
        cases onward
        exact isOpener
      case holds =>
        intro yields taken holder deliveries other opened before
        cases opened
        exact ⟨rfl, pushes.kept future kept holds, before.2⟩
      case joined =>
        intro _ notOpener
        exact (notOpener (List.mem_of_getElem? isOpener)).elim
      case stepped => exact stepped
  | collect holds bounded stepped =>
      exact invariant.collect phase callers holds bounded stepped
  | next holds acts stepped =>
      exact invariant.next call phase base window callers holds acts
        stepped
  | stop holds acts stepped =>
      exact invariant.stop phase base callers holds acts stepped
  | dropIdle holds =>
      exact invariant.dropIdle pushes holds
  | discard holds stepped =>
      exact invariant.discard phase callers holds stepped
  | destroy holds on stepped =>
      exact invariant.destroy phase base callers holds on stepped
  | complete holds stepped =>
      exact invariant.complete phase base callers holds stepped

end RangeInvariant

/-- In every run of a safe buffer each range is with the future it opened. -/
theorem Reachable.rangeInvariant
    {N : BufferSize width}
    {needsDrop : Bool}
    {act : Control → Reducers.Step Task Result Control}
    {task : Nat → Task}
    {reducer : Nat → Control}
    {state : State Task Result Control}
    (safe : N.IsSafe)
    (reachable : Reachable N needsDrop act task reducer state) :
    RangeInvariant width act reducer state := by
  induction reachable with
  | start =>
      exact .initial
  | next earlier _ taken inductionHypothesis =>
      have base := Reachable.base earlier
      have queue := RangeTasks.Reachable.queue base
      exact inductionHypothesis.move
        (RangeTasks.Reachable.callInvariant base) queue.phaseInvariant
        (RangeTasks.Reachable.holderInvariant safe base)
        (queue.liveInWindow safe) (Reachable.pushInvariant earlier)
        (step_move taken)

end StackQueue.BatchReduce
