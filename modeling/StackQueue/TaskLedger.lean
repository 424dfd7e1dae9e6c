import StackQueue.TaskDrops

namespace StackQueue.TaskQueue

open Queue

/-!
# The ledger of resolved values

Responsibility for a value moves from the resolver to the receiver's slot, and
from there to a poll or to the drop of the future.  While no cell is reused
before the drop of its receiver has returned, each value passed to
`resolve_unchecked` is in exactly one of these places, unless a drop leaves a
set slot alone because the task type has no destructor.
-/

variable {Task Value : Type}

/-- A drop that returns on a set word drops the value. -/
def DropsValue
    (program : Program Task Value)
    (state : State Task Value) :
    Action Value → Prop
  | .spin future =>
      ∀ receiver seen,
        state.futures future = .dropping receiver seen →
        isSetting seen = false →
        isSet seen = true →
        program.needsDrop = true
  | _ => True

/-- Each value passed to `resolve_unchecked` is accounted for exactly once. -/
structure Accounted (state : State Task Value) : Prop where
  passedOnce :
    (state.passed.map Prod.fst).Nodup
  /-- No value is returned or dropped twice, nor returned and dropped. -/
  once :
    ((state.returned ++ state.destroyed).map Prod.fst).Nodup
  /-- Only values that were passed are returned or dropped. -/
  own :
    ∀ entry ∈ state.returned ++ state.destroyed, entry ∈ state.passed
  /-- Returned values and those dropped by receivers come from set slots. -/
  set :
    ∀ entry ∈ state.returned ++ state.destroyed,
      entry ∈ state.stored ∨
        (state.resolutions entry.1 = .discarded ∧
          entry ∈ state.destroyed)
  /-- A value that is neither is in its receiver or with its resolver. -/
  kept :
    ∀ entry ∈ state.passed,
      entry ∈ state.returned ++ state.destroyed ∨
        (∃ receiver,
          (state.futures entry.1).receiver? = some receiver ∧
            (state.resolutions entry.1).isStored = true ∧
            receiver.value = entry.2) ∨
        ∃ batch method todo cell,
          state.batches batch =
              .resolving method todo cell entry.2 .write ∧
            (state.queue.buffer cell).rx = some entry.1

/-! ## The ledger -/

/-- The future has no receiver any more. -/
def Future.isGone : Future Task Value → Bool
  | .received | .dropped => true
  | .unbatched _ | .batched _ | .dropping _ _ => false

theorem Future.not_isGone_of_receiver
    {future : Future Task Value}
    {receiver : Receiver Value}
    (holds : future.receiver? = some receiver) :
    future.isGone = false := by
  cases future <;> first | rfl | cases holds

@[simp]
theorem Future.isGone_store
    (future : Future Task Value)
    (value : Option Value) :
    (future.store value).isGone = future.isGone := by
  cases future <;> rfl

theorem Resolution.Advances.isStored
    {before after : Resolution}
    (advances : Advances before after)
    (stored : before.isStored = true) :
    after.isStored = true := by
  cases advances <;> first | rfl | cases stored

theorem Resolution.Advances.not_discarded
    {before after : Resolution}
    (advances : Advances before after) :
    before ≠ .discarded := by
  cases advances <;> exact fun same => by cases same

/-- Who has taken or dropped the values that were passed. -/
structure LedgerInvariant (state : State Task Value) : Prop where
  returned :
    ∀ entry ∈ state.returned,
      (state.futures entry.1).isGone = true
  destroyed :
    ∀ entry ∈ state.destroyed,
      entry ∈ state.passed ∧
        (state.resolutions entry.1 = .discarded ∨
          (entry ∈ state.stored ∧
            state.futures entry.1 = .dropped))
  once :
    ((state.returned ++ state.destroyed).map Prod.fst).Nodup
  discarded :
    ∀ entry ∈ state.passed,
      state.resolutions entry.1 = .discarded →
      entry ∈ state.destroyed
  /-- With a receiver that was set, its value was taken or dropped. -/
  gone :
    ∀ entry ∈ state.passed,
      (state.resolutions entry.1).isStored = true →
      (state.futures entry.1).isGone = true →
      entry ∈ state.returned ++ state.destroyed

namespace LedgerInvariant

variable
    {width : PointerWidth}
    {program : Program Task Value}
    {N : BufferSize width}
    {task : Nat → Task}
    {state after : State Task Value}

theorem initial :
    LedgerInvariant (TaskQueue.initial task : State Task Value) := by
  constructor <;> simp [TaskQueue.initial]

/-- A step that returns no value and drops none. -/
theorem of_frame
    (ledger : LedgerInvariant state)
    (gone :
      ∀ future,
        (state.futures future).isGone = true →
        (after.futures future).isGone = true)
    (dropped :
      ∀ future,
        state.futures future = .dropped →
        after.futures future = .dropped)
    (discarded :
      ∀ future,
        after.resolutions future = .discarded ↔
          state.resolutions future = .discarded)
    (leaves :
      ∀ future,
        (after.resolutions future).isStored = true →
        (after.futures future).isGone = true →
        (state.resolutions future).isStored = true ∧
          (state.futures future).isGone = true)
    (passed :
      ∀ entry ∈ after.passed,
        entry ∈ state.passed ∨
          after.resolutions entry.1 = .setting)
    (stillPassed : ∀ entry ∈ state.passed, entry ∈ after.passed)
    (stored : ∀ entry ∈ state.stored, entry ∈ after.stored)
    (returned : after.returned = state.returned)
    (destroyed : after.destroyed = state.destroyed) :
    LedgerInvariant after := by
  constructor
  case returned =>
    rw [returned]
    exact fun entry member => gone _ (ledger.returned entry member)
  case destroyed =>
    rw [destroyed]
    intro entry member
    obtain ⟨isPassed, isDiscarded | ⟨isStored, isDropped⟩⟩ :=
      ledger.destroyed entry member
    · exact ⟨stillPassed entry isPassed,
        Or.inl ((discarded _).mpr isDiscarded)⟩
    · exact ⟨stillPassed entry isPassed,
        Or.inr ⟨stored entry isStored, dropped _ isDropped⟩⟩
  case once =>
    rw [returned, destroyed]
    exact ledger.once
  case discarded =>
    rw [destroyed]
    intro entry member isDiscarded
    rcases passed entry member with earlier | setting
    · exact ledger.discarded entry earlier
        ((discarded _).mp isDiscarded)
    · rw [setting] at isDiscarded
      cases isDiscarded
  case gone =>
    rw [returned, destroyed]
    intro entry member isStored isGone
    rcases passed entry member with earlier | setting
    · obtain ⟨wasStored, wasGone⟩ := leaves _ isStored isGone
      exact ledger.gone entry earlier wasStored wasGone
    · rw [setting] at isStored
      cases isStored

/-- A step that leaves futures and resolutions alone. -/
theorem of_same
    (ledger : LedgerInvariant state)
    (futures : after.futures = state.futures)
    (resolutions : after.resolutions = state.resolutions)
    (passed : after.passed = state.passed)
    (stored : after.stored = state.stored)
    (returned : after.returned = state.returned)
    (destroyed : after.destroyed = state.destroyed) :
    LedgerInvariant after := by
  constructor
  case returned =>
    rw [returned, futures]
    exact ledger.returned
  case destroyed =>
    rw [destroyed, passed, resolutions, stored, futures]
    exact ledger.destroyed
  case once =>
    rw [returned, destroyed]
    exact ledger.once
  case discarded =>
    rw [passed, resolutions, destroyed]
    exact ledger.discarded
  case gone =>
    rw [passed, resolutions, futures, returned, destroyed]
    exact ledger.gone

/-- A step of one future that takes no value. -/
theorem of_future
    (ledger : LedgerInvariant state)
    {future : Nat}
    {stage : Future Task Value}
    (futures :
      after.futures = Function.update state.futures future stage)
    (gone :
      (state.futures future).isGone = true → stage.isGone = true)
    (dropped : state.futures future = .dropped → stage = .dropped)
    (leaves :
      (state.resolutions future).isStored = true →
      stage.isGone = true →
      (state.futures future).isGone = true)
    (resolutions : after.resolutions = state.resolutions)
    (passed : after.passed = state.passed)
    (stored : after.stored = state.stored)
    (returned : after.returned = state.returned)
    (destroyed : after.destroyed = state.destroyed) :
    LedgerInvariant after := by
  refine ledger.of_frame ?_ ?_ ?_ ?_ ?_ ?_ ?_ returned destroyed
  · intro other isGone
    by_cases same : other = future
    · rw [same] at isGone ⊢
      rw [futures, Function.update_self]
      exact gone isGone
    · rw [futures, Function.update_of_ne same]
      exact isGone
  · intro other isDropped
    by_cases same : other = future
    · rw [same] at isDropped ⊢
      rw [futures, Function.update_self]
      exact dropped isDropped
    · rw [futures, Function.update_of_ne same]
      exact isDropped
  · rw [resolutions]
    exact fun _ => Iff.rfl
  · rw [resolutions]
    intro other isStored isGone
    refine ⟨isStored, ?_⟩
    by_cases same : other = future
    · rw [same] at isStored isGone ⊢
      rw [futures, Function.update_self] at isGone
      exact leaves isStored isGone
    · rw [futures, Function.update_of_ne same] at isGone
      exact isGone
  · rw [passed]
    exact fun _ => Or.inl
  · rw [passed]
    exact fun _ => id
  · rw [stored]
    exact fun _ => id

/-- A step that processes one task and does not discard its value. -/
theorem of_advance
    (ledger : LedgerInvariant state)
    {future : Nat}
    {next : Resolution}
    (advances : (state.resolutions future).Advances next)
    (notDiscarded : next ≠ .discarded)
    (resolutions :
      after.resolutions =
        Function.update state.resolutions future next)
    (stays :
      next.isStored = true →
      (state.futures future).isGone = true →
      (state.resolutions future).isStored = true)
    (gone :
      ∀ other,
        (after.futures other).isGone = (state.futures other).isGone)
    (dropped :
      ∀ other,
        state.futures other = .dropped →
        after.futures other = .dropped)
    (passed :
      ∀ entry ∈ after.passed,
        entry ∈ state.passed ∨
          after.resolutions entry.1 = .setting)
    (stillPassed : ∀ entry ∈ state.passed, entry ∈ after.passed)
    (stored : ∀ entry ∈ state.stored, entry ∈ after.stored)
    (returned : after.returned = state.returned)
    (destroyed : after.destroyed = state.destroyed) :
    LedgerInvariant after := by
  refine ledger.of_frame ?_ dropped ?_ ?_ passed stillPassed stored
    returned destroyed
  · intro other isGone
    rw [gone]
    exact isGone
  · intro other
    by_cases same : other = future
    · rw [same, resolutions, Function.update_self]
      exact iff_of_false notDiscarded advances.not_discarded
    · rw [resolutions, Function.update_of_ne same]
  · intro other isStored isGone
    rw [gone] at isGone
    refine ⟨?_, isGone⟩
    by_cases same : other = future
    · rw [same] at isStored isGone ⊢
      rw [resolutions, Function.update_self] at isStored
      exact stays isStored isGone
    · rw [resolutions, Function.update_of_ne same] at isStored
      exact isStored

/-- The value of a receiver that is still there was neither returned nor
dropped. -/
theorem fresh
    (ledger : LedgerInvariant state)
    {future : Nat}
    (notGone : (state.futures future).isGone = false)
    (notDiscarded : state.resolutions future ≠ .discarded) :
    ∀ entry ∈ state.returned ++ state.destroyed, entry.1 ≠ future := by
  intro entry member same
  rcases List.mem_append.mp member with isReturned | isDestroyed
  · have isGone := ledger.returned entry isReturned
    rw [same, notGone] at isGone
    cases isGone
  · obtain ⟨_, isDiscarded | ⟨_, isDropped⟩⟩ :=
      ledger.destroyed entry isDestroyed
    · rw [same] at isDiscarded
      exact notDiscarded isDiscarded
    · rw [← same, isDropped] at notGone
      cases notGone

/-- One more value is returned or dropped. -/
theorem once_of_fresh
    (ledger : LedgerInvariant state)
    {future : Nat}
    {value : Option Value}
    (fresh :
      ∀ entry ∈ state.returned ++ state.destroyed, entry.1 ≠ future)
    (taken :
      (after.returned ++ after.destroyed).Perm
        ((future, value) :: (state.returned ++ state.destroyed))) :
    ((after.returned ++ after.destroyed).map Prod.fst).Nodup := by
  rw [(taken.map Prod.fst).nodup_iff, List.map_cons, List.nodup_cons]
  refine ⟨?_, ledger.once⟩
  intro member
  obtain ⟨entry, inLedger, same⟩ := List.mem_map.mp member
  exact fresh entry inLedger same

/-- The value leaves its receiver: a poll returns it or the drop drops it. -/
theorem take
    (ledger : LedgerInvariant state)
    {future : Nat}
    {value : Option Value}
    {stage : Future Task Value}
    (notGone : (state.futures future).isGone = false)
    (isStored : (state.resolutions future).isStored = true)
    (inStored : (future, value) ∈ state.stored)
    (inPassed : (future, value) ∈ state.passed)
    (passedOnce : (state.passed.map Prod.fst).Nodup)
    (futures :
      after.futures = Function.update state.futures future stage)
    (takes :
      (stage = .received ∧
          after.returned = state.returned ++ [(future, value)] ∧
          after.destroyed = state.destroyed) ∨
        (stage = .dropped ∧
          after.returned = state.returned ∧
          after.destroyed = state.destroyed ++ [(future, value)]))
    (resolutions : after.resolutions = state.resolutions)
    (passed : after.passed = state.passed)
    (stored : after.stored = state.stored) :
    LedgerInvariant after := by
  have notDiscarded : state.resolutions future ≠ .discarded := by
    intro same
    rw [same] at isStored
    cases isStored
  have fresh := ledger.fresh notGone notDiscarded
  have isGone : stage.isGone = true := by
    rcases takes with ⟨isReceived, _⟩ | ⟨isDropped, _⟩
    · rw [isReceived]
      rfl
    · rw [isDropped]
      rfl
  have taken :
      (after.returned ++ after.destroyed).Perm
        ((future, value) :: (state.returned ++ state.destroyed)) := by
    rcases takes with ⟨_, returned, destroyed⟩ | ⟨_, returned, destroyed⟩
    · rw [returned, destroyed, List.append_assoc]
      exact List.perm_middle
    · rw [returned, destroyed, ← List.append_assoc]
      exact List.perm_append_singleton _ _
  have elsewhere {other : Nat} (differs : other ≠ future) :
      after.futures other = state.futures other := by
    rw [futures, Function.update_of_ne differs]
  constructor
  case returned =>
    intro entry member
    by_cases same : entry.1 = future
    · rw [same, futures, Function.update_self]
      exact isGone
    · rw [elsewhere same]
      rcases takes with ⟨_, returned, _⟩ | ⟨_, returned, _⟩
      · rw [returned] at member
        rcases List.mem_append.mp member with earlier | isNew
        · exact ledger.returned entry earlier
        · rw [List.mem_singleton.mp isNew] at same
          exact (same rfl).elim
      · rw [returned] at member
        exact ledger.returned entry member
  case destroyed =>
    rw [passed, resolutions, stored]
    have kept (entry : Nat × Option Value)
        (member : entry ∈ state.destroyed) :
        entry ∈ state.passed ∧
          (state.resolutions entry.1 = .discarded ∨
            (entry ∈ state.stored ∧
              after.futures entry.1 = .dropped)) := by
      rw [elsewhere (fresh entry (List.mem_append_right _ member))]
      exact ledger.destroyed entry member
    rcases takes with ⟨_, _, destroyed⟩ | ⟨isDropped, _, destroyed⟩
    · rw [destroyed]
      exact kept
    · rw [destroyed]
      intro entry member
      rcases List.mem_append.mp member with earlier | isNew
      · exact kept entry earlier
      · rw [List.mem_singleton.mp isNew]
        refine ⟨inPassed, Or.inr ⟨inStored, ?_⟩⟩
        rw [futures, Function.update_self, isDropped]
  case once =>
    exact ledger.once_of_fresh fresh taken
  case discarded =>
    rw [passed, resolutions]
    intro entry member isDiscarded
    have earlier := ledger.discarded entry member isDiscarded
    rcases takes with ⟨_, _, destroyed⟩ | ⟨_, _, destroyed⟩
    · rw [destroyed]
      exact earlier
    · rw [destroyed]
      exact List.mem_append_left _ earlier
  case gone =>
    rw [passed, resolutions]
    intro entry member entryStored entryGone
    rw [taken.mem_iff]
    by_cases same : entry.1 = future
    · have isEntry :=
        List.inj_on_of_nodup_map passedOnce member inPassed same
      rw [isEntry]
      exact List.mem_cons_self
    · rw [elsewhere same] at entryGone
      exact List.mem_cons_of_mem _
        (ledger.gone entry member entryStored entryGone)

/-- The resolver drops a value whose receiver is being dropped. -/
theorem discard
    (ledger : LedgerInvariant state)
    (values : ValueInvariant state)
    {future : Nat}
    {value : Option Value}
    (visited : state.resolutions future = .visited)
    (resolutions :
      after.resolutions =
        Function.update state.resolutions future .discarded)
    (passed : after.passed = state.passed ++ [(future, value)])
    (destroyed : after.destroyed = state.destroyed ++ [(future, value)])
    (futures : after.futures = state.futures)
    (stored : after.stored = state.stored)
    (returned : after.returned = state.returned) :
    LedgerInvariant after := by
  have notPassed {entry : Nat × Option Value}
      (member : entry ∈ state.passed) :
      entry.1 ≠ future := by
    intro same
    have notPending := values.passed entry member
    rw [same, visited] at notPending
    cases notPending
  have fresh :
      ∀ entry ∈ state.returned ++ state.destroyed, entry.1 ≠ future := by
    intro entry member
    rcases List.mem_append.mp member with isReturned | isDestroyed
    · have isStored := values.returned entry isReturned
      exact notPassed (values.stored entry isStored).1
    · exact notPassed (ledger.destroyed entry isDestroyed).1
  constructor
  case returned =>
    rw [returned, futures]
    exact ledger.returned
  case destroyed =>
    rw [destroyed, passed, stored, futures, resolutions]
    intro entry member
    rcases List.mem_append.mp member with earlier | isNew
    · obtain ⟨isPassed, reason⟩ := ledger.destroyed entry earlier
      rw [Function.update_of_ne (notPassed isPassed)]
      exact ⟨List.mem_append_left _ isPassed, reason⟩
    · rw [List.mem_singleton.mp isNew, Function.update_self]
      exact ⟨by simp, Or.inl rfl⟩
  case once =>
    have taken :
        (after.returned ++ after.destroyed).Perm
          ((future, value) :: (state.returned ++ state.destroyed)) := by
      rw [returned, destroyed, ← List.append_assoc]
      exact List.perm_append_singleton _ _
    exact ledger.once_of_fresh fresh taken
  case discarded =>
    rw [destroyed, passed, resolutions]
    intro entry member isDiscarded
    rcases List.mem_append.mp member with earlier | isNew
    · rw [Function.update_of_ne (notPassed earlier)] at isDiscarded
      exact List.mem_append_left _
        (ledger.discarded entry earlier isDiscarded)
    · exact List.mem_append_right _ isNew
  case gone =>
    rw [returned, destroyed, passed, resolutions, futures]
    intro entry member isStored isGone
    rcases List.mem_append.mp member with earlier | isNew
    · rw [Function.update_of_ne (notPassed earlier)] at isStored
      rw [← List.append_assoc]
      exact List.mem_append_left _
        (ledger.gone entry earlier isStored isGone)
    · rw [List.mem_singleton.mp isNew, Function.update_self] at isStored
      cases isStored

/-- The owner's steps keep the ledger. -/
theorem ownerMove
    (ledger : LedgerInvariant state)
    (enqueue : EnqueueInvariant N task state)
    {queue : Queue.State (TaskRef Task) Nat}
    (moved : OwnerMove N state.queue queue) :
    LedgerInvariant { state.progress with queue := queue } := by
  cases moved with
  | @write _ index at_ =>
      have callAt := enqueue.callAt
      rw [at_] at callAt
      obtain ⟨call, called, _, holds⟩ := callAt
      have futures :
          state.progress.futures =
            Function.update state.futures call.future
              (.batched ⟨index, none, call.waker⟩) := by
        simp [State.progress, at_, called]
      refine ledger.of_future futures ?_ ?_ (fun _ isGone => by cases isGone)
        rfl rfl rfl rfl rfl
      · rw [holds]
        exact fun isGone => by cases isGone
      · rw [holds]
        exact fun isDropped => by cases isDropped
  | add at_ | occupy at_ | enterAtBoundary at_ _ | enterInside at_ _
  | cachedFree at_ _ | cachedBusy at_ _ | loadedFree at_ _
  | loadedBusy at_ _ | replaceJoined at_ _ | replaceOpening at_ _ =>
      exact ledger.of_same (by simp [State.progress, at_]) rfl rfl rfl rfl
        rfl

/-- The accesses of `resolve_unchecked` keep the ledger. -/
theorem resolveMove
    (ledger : LedgerInvariant state)
    (resolve : ResolveInvariant N state)
    (values : ValueInvariant state)
    (enqueue : EnqueueInvariant N task state)
    (window : state.queue.LiveInWindow N)
    {batch cell : Nat}
    {method : Method}
    {todo : List Nat}
    {value : Option Value}
    {point : ResolvePoint}
    (resolving :
      state.batches batch = .resolving method todo cell value point)
    (moved :
      ResolveMove state batch method todo cell value point after) :
    LedgerInvariant after := by
  obtain ⟨future, pointer, resolution⟩ :=
    resolve.resolving_task enqueue window resolving
  have marked (update : Nat → Nat) (next : Resolution) :
      ((state.updateCell cell (TaskRef.updateState update)).mark cell
          next).resolutions =
        Function.update state.resolutions future next :=
    State.updateCell_mark_resolutions (TaskRef.updateState_rx update)
      pointer
  have passed :
      (state.pass cell value).passed =
        state.passed ++ [(future, value)] := by
    rw [State.pass, pointer]
    rfl
  cases moved with
  | setting alive =>
      have resolutions := marked (· ||| settingValue) .setting
      refine ledger.of_advance (resolution ▸ .fetchOr)
        (fun same => by cases same) resolutions
        (fun isStored => by cases isStored) (fun _ => rfl)
        (fun _ => id) ?_ ?_ (fun _ => id) rfl rfl
      · intro entry member
        change entry ∈ (state.pass cell value).passed at member
        rw [passed] at member
        refine (List.mem_append.mp member).imp_right fun isNew => ?_
        rw [List.mem_singleton.mp isNew]
        exact (congrFun resolutions future).trans
          (Function.update_self _ _ _)
      · intro entry member
        change entry ∈ (state.pass cell value).passed
        rw [passed]
        exact List.mem_append_left _ member
  | discard dropped =>
      refine ledger.discard values resolution
        (marked (· ||| settingValue) .discarded) passed ?_ rfl rfl rfl
      simp [pointer]
  | @write rx designates =>
      have same := designates.symm.trans pointer
      cases same
      obtain ⟨carrier, receiver, isCarrier, holds, _⟩ :=
        resolve.receiver_of_resolving enqueue window resolving
          (Or.inl rfl)
      rw [pointer] at isCarrier
      cases isCarrier
      refine ledger.of_advance (resolution ▸ .write)
        (fun same => by cases same) (State.mark_resolutions pointer) ?_ ?_
        ?_ (fun _ => Or.inl) (fun _ => id)
        (fun _ member => List.mem_append_left _ member) rfl rfl
      · intro _ isGone
        rw [Future.not_isGone_of_receiver holds] at isGone
        cases isGone
      · intro other
        by_cases here : other = future
        · rw [here]
          simp [State.setBatch, State.setFuture]
        · simp [State.setBatch, State.setFuture, State.mark, here]
      · intro other isDropped
        have differs : other ≠ future := by
          intro here
          rw [here] at isDropped
          rw [isDropped] at holds
          cases holds
        simpa [State.setBatch, State.setFuture, State.mark, differs]
          using isDropped
  | wake _ =>
      refine ledger.of_advance (resolution ▸ .wake)
        (fun same => by cases same) (State.mark_resolutions pointer) ?_
        (fun _ => rfl) (fun _ => id) (fun _ => Or.inl) (fun _ => id)
        (fun _ => id) rfl rfl
      rw [resolution]
      exact fun _ _ => rfl
  | fetchXor =>
      refine ledger.of_advance (resolution ▸ .fetchXor)
        (fun same => by cases same) (marked _ .set) ?_
        (fun _ => rfl) (fun _ => id) (fun _ => Or.inl) (fun _ => id)
        (fun _ => id) rfl rfl
      rw [resolution]
      exact fun _ _ => rfl

/-- The visit to a cell keeps the ledger. -/
theorem visit
    (ledger : LedgerInvariant state)
    (resolve : ResolveInvariant N state)
    (enqueue : EnqueueInvariant N task state)
    (phase : PhaseInvariant N state.queue)
    (window : state.queue.LiveInWindow N)
    {batch cell : Nat}
    {method : Method}
    {todo : List Nat}
    {update : TaskRef Task → TaskRef Task}
    (visiting : state.batches batch = .visiting method (cell :: todo))
    (samePointer : ∀ ref, (update ref).rx = ref.rx)
    (resolutions :
      after.resolutions =
        ((state.updateCell cell update).mark cell .visited).resolutions)
    (futures : after.futures = state.futures)
    (passed : after.passed = state.passed)
    (stored : after.stored = state.stored)
    (returned : after.returned = state.returned)
    (destroyed : after.destroyed = state.destroyed) :
    LedgerInvariant after := by
  obtain ⟨future, pointer, untouched⟩ :=
    resolve.visiting_task enqueue phase window visiting
  refine ledger.of_advance (untouched ▸ .visit)
    (fun same => by cases same)
    (resolutions.trans
      (State.updateCell_mark_resolutions samePointer pointer))
    (fun isStored => by cases isStored) ?_ ?_ ?_ ?_ ?_ returned destroyed
  · rw [futures]
    exact fun _ => rfl
  · rw [futures]
    exact fun _ => id
  · rw [passed]
    exact fun _ => Or.inl
  · rw [passed]
    exact fun _ => id
  · rw [stored]
    exact fun _ => id

/-- A drop that returns drops the value if it was set and needs to be. -/
theorem dropReturn
    (ledger : LedgerInvariant state)
    (values : ValueInvariant state)
    (seenWords : SeenWords state)
    {future seen : Nat}
    {receiver : Receiver Value}
    (dropsValue : DropsValue program state (.spin future))
    (holds : state.futures future = .dropping receiver seen)
    (clear : isSetting seen = false) :
    LedgerInvariant
      { state.setFuture future .dropped with
        destroyed :=
          state.destroyed ++
            if program.needsDrop ∧ seen &&& valueSet = valueSet then
              [(future, receiver.value)]
            else
              [] } := by
  have seenAt := seenWords future receiver seen holds clear
  have notGone : (state.futures future).isGone = false := by
    rw [holds]
    rfl
  cases isSeen : isSet seen with
  | true =>
      have needsDrop := dropsValue receiver seen holds clear isSeen
      have drops :
          program.needsDrop = true ∧ seen &&& valueSet = valueSet :=
        ⟨needsDrop, (and_valueSet_eq_iff seen).mpr isSeen⟩
      rw [isSeen] at seenAt
      have inStored :=
        values.slots future receiver
          (Future.receiver?_of_dropping holds) seenAt.symm
      refine ledger.take notGone seenAt.symm inStored
        (values.stored _ inStored).1 values.once rfl ?_ rfl rfl rfl
      right
      refine ⟨rfl, rfl, ?_⟩
      simp only [if_pos drops]
  | false =>
      have leaves :
          ¬ (program.needsDrop = true ∧ seen &&& valueSet = valueSet) := by
        rintro ⟨_, masked⟩
        rw [and_valueSet_eq_iff, isSeen] at masked
        cases masked
      refine ledger.of_future rfl (fun _ => rfl) (fun _ => rfl) ?_ rfl rfl
        rfl rfl ?_
      · intro isStored
        rw [← seenAt, isSeen] at isStored
        cases isStored
      · simp only [if_neg leaves, List.append_nil]

/-- Every step that drops the values of set slots keeps the ledger. -/
theorem move
    (ledger : LedgerInvariant state)
    (resolve : ResolveInvariant N state)
    (values : ValueInvariant state)
    (seenWords : SeenWords state)
    (enqueue : EnqueueInvariant N task state)
    (phase : PhaseInvariant N state.queue)
    (window : state.queue.LiveInWindow N)
    {action : Action Value}
    (pollsWoken : PollsWoken state action)
    (dropsValue : DropsValue program state action)
    (moved : Move program N state action after) :
    LedgerInvariant after := by
  cases moved with
  | call _ _ _ | idlePoll _ | refuse _ _ | join _ _ | spawn _ _
  | assign _ _ _ _ _ | invoke _ | release _ _ _ _ | retry _ | steal _ _ _
  | complete _ _ =>
      exact ledger.of_same rfl rfl rfl rfl rfl rfl
  | @ready future _ receiver outside holds =>
      have woken := pollsWoken receiver holds
      have isStored := Resolution.isStored_of_isWoken woken
      have inStored :=
        values.slots future receiver
          (Future.receiver?_of_batched holds) isStored
      exact ledger.take (by rw [holds]; rfl) isStored inStored
        (values.stored _ inStored).1 values.once rfl
        (Or.inl ⟨rfl, rfl, rfl⟩) rfl rfl rfl
  | owner moved =>
      exact ledger.ownerMove enqueue moved
  | visitMap visiting | visitDrop visiting =>
      exact ledger.visit resolve enqueue phase window visiting
        TaskRef.takeTaskUnchecked_rx rfl rfl rfl rfl rfl rfl
  | visitWith visiting =>
      refine ledger.visit resolve enqueue phase window visiting
        (fun _ => ?_) rfl rfl rfl rfl rfl rfl
      split <;> rfl
  | resolve resolving moved =>
      exact ledger.resolveMove resolve values enqueue window resolving
        moved
  | dropBatched _ holds | spin holds _ =>
      refine ledger.of_future rfl ?_ ?_ (fun _ isGone => by cases isGone)
        rfl rfl rfl rfl rfl
      · rw [holds]
        exact fun isGone => by cases isGone
      · rw [holds]
        exact fun isDropped => by cases isDropped
  | @dropUnbatched future _ outside holds =>
      have fresh := (enqueue.unbatched _ _ holds).2
      refine ledger.of_future rfl (fun _ => rfl) (fun _ => rfl) ?_ rfl rfl
        rfl rfl rfl
      intro isStored
      rw [resolve.words.notEnqueued _ fresh] at isStored
      cases isStored
  | dropReceived holds =>
      refine ledger.of_future rfl (fun _ => rfl) (fun _ => rfl)
        (fun _ _ => ?_) rfl rfl rfl rfl rfl
      rw [holds]
      rfl
  | dropReturn holds clear =>
      exact ledger.dropReturn values seenWords dropsValue holds clear

/-- The ledger accounts for every value. -/
theorem accounted
    (ledger : LedgerInvariant state)
    (resolve : ResolveInvariant N state)
    (values : ValueInvariant state)
    (enqueue : EnqueueInvariant N task state)
    (window : state.queue.LiveInWindow N) :
    Accounted state := by
  constructor
  case passedOnce =>
    exact values.once
  case once =>
    exact ledger.once
  case own =>
    intro entry member
    rcases List.mem_append.mp member with isReturned | isDestroyed
    · exact (values.stored entry (values.returned entry isReturned)).1
    · exact (ledger.destroyed entry isDestroyed).1
  case set =>
    intro entry member
    rcases List.mem_append.mp member with isReturned | isDestroyed
    · exact Or.inl (values.returned entry isReturned)
    · obtain ⟨_, isDiscarded | ⟨isStored, _⟩⟩ :=
        ledger.destroyed entry isDestroyed
      · exact Or.inr ⟨isDiscarded, isDestroyed⟩
      · exact Or.inl isStored
  case kept =>
    rintro ⟨future, value⟩ member
    have notPending := values.passed _ member
    have sameValue {other : Option Value}
        (otherPassed : (future, other) ∈ state.passed) :
        other = value := by
      have entries :=
        List.inj_on_of_nodup_map values.once otherPassed member rfl
      cases entries
      rfl
    have held (isStored : (state.resolutions future).isStored = true) :
        (future, value) ∈ state.returned ++ state.destroyed ∨
          ∃ receiver,
            (state.futures future).receiver? = some receiver ∧
              (state.resolutions future).isStored = true ∧
              receiver.value = value := by
      cases stage : state.futures future with
      | unbatched task =>
          rw [resolve.words.notEnqueued future
            (enqueue.unbatched future task stage).2] at isStored
          cases isStored
      | received | dropped =>
          exact Or.inl (ledger.gone _ member isStored
            (by simp [stage, Future.isGone]))
      | batched receiver | dropping receiver seen =>
          have holds : (state.futures future).receiver? = some receiver := by
            rw [stage]
            rfl
          have inStored := values.slots future receiver holds isStored
          exact Or.inr ⟨receiver, rfl, isStored,
            sameValue (values.stored _ inStored).1⟩
    cases resolution : state.resolutions future with
    | untouched | visited =>
        rw [resolution] at notPending
        cases notPending
    | discarded =>
        exact Or.inl (List.mem_append_right _
          (ledger.discarded _ member resolution))
    | stored | woken | set =>
        rcases held (by rw [resolution]; rfl) with settled | inReceiver
        · exact Or.inl settled
        · rw [resolution] at inReceiver
          exact Or.inr (Or.inl inReceiver)
    | setting =>
        right; right
        obtain ⟨batch, method, todo, cell, carried, point, resolving,
          pointer⟩ :=
          resolve.batches.resolving future (by rw [resolution]; rfl)
        obtain ⟨other, designates, isPoint⟩ :=
          resolve.resolving_task enqueue window resolving
        rw [pointer] at designates
        cases designates
        rw [resolution] at isPoint
        have isWrite : point = .write := by
          cases point <;> first | rfl | cases isPoint
        rw [isWrite] at resolving
        obtain ⟨carrier, isCarrier, isPassed⟩ :=
          values.carried _ _ _ _ _ resolving
        rw [pointer] at isCarrier
        cases isCarrier
        rw [sameValue isPassed] at resolving
        exact ⟨batch, method, todo, cell, resolving, pointer⟩

end LedgerInvariant

/-- When every value is accounted for, no drop has left a set slot alone. -/
theorem Accounted.dropsValue
    {width : PointerWidth}
    {program : Program Task Value}
    {N : BufferSize width}
    {task : Nat → Task}
    {state after : State Task Value}
    (resolve : ResolveInvariant N state)
    (values : ValueInvariant state)
    (ledger : LedgerInvariant state)
    (seenWords : SeenWords state)
    (enqueue : EnqueueInvariant N task state)
    (window : state.queue.LiveInWindow N)
    {action : Action Value}
    (moved : Move program N state action after)
    (accounted : Accounted after) :
    DropsValue program state action := by
  cases action with
  | spin future =>
      intro receiver seen holds clear isSeen
      by_contra leaves
      have isStored := seenWords future receiver seen holds clear
      rw [isSeen] at isStored
      have inStored :=
        values.slots future receiver
          (Future.receiver?_of_dropping holds) isStored.symm
      have fresh :
          ∀ entry ∈ state.returned ++ state.destroyed,
            entry.1 ≠ future := by
        apply ledger.fresh
        · rw [holds]
          rfl
        · intro isDiscarded
          rw [isDiscarded] at isStored
          cases isStored
      cases moved with
      | spin isDropping waits =>
          rw [holds] at isDropping
          cases isDropping
          rw [clear] at waits
          cases waits
      | dropReturn isDropping _ =>
          rw [holds] at isDropping
          cases isDropping
          rcases accounted.kept _ (values.stored _ inStored).1 with
            settled | ⟨other, stillHolds, _⟩ |
              ⟨batch, method, todo, cell, resolving, pointer⟩
          · simp only [leaves, false_and, if_false, List.append_nil]
              at settled
            exact fresh _ settled rfl
          · simp [State.setFuture, Future.receiver?] at stillHolds
          · obtain ⟨other, designates, resolution⟩ :=
              resolve.resolving_task enqueue window resolving
            rw [show (state.queue.buffer cell).rx = some future
              from pointer] at designates
            cases designates
            rw [resolution] at isStored
            cases isStored
  | _ => trivial

/--
In a run that writes no live cell, polls futures after their wake-ups and
reuses no cell before the drop of its receiver returns, each value is
accounted for exactly once if and only if every drop that finds its slot set
drops the value: whether it does depends on the task type, not the value type.
-/
theorem accounted_iff_drops_value
    {width : PointerWidth}
    (program : Program Task Value)
    (N : BufferSize width)
    (task : Nat → Task)
    (trace : List (State Task Value × Action Value))
    (state : State Task Value)
    (run : Run program N task trace state)
    (writesFree : ∀ taken ∈ trace, WritesFree N taken.1 taken.2)
    (pollsWoken : ∀ taken ∈ trace, PollsWoken taken.1 taken.2)
    (spares : ∀ taken ∈ trace, SparesReceivers taken.1 taken.2) :
    ((∀ taken ∈ trace, Accounted taken.1) ∧ Accounted state) ↔
      ∀ taken ∈ trace, DropsValue program taken.1 taken.2 := by
  let allowed (state : State Task Value) (action : Action Value) : Prop :=
    SparesReceivers state action ∧ WritesFree N state action ∧
      PollsWoken state action
  let invariant (state : State Task Value) : Prop :=
    LedgerInvariant state ∧ SeenWords state ∧ OwnCells N state
  have initially : invariant (initial task) :=
    ⟨.initial, .initial, .initial⟩
  have permitted : ∀ taken ∈ trace, allowed taken.1 taken.2 :=
    fun taken member =>
      ⟨spares taken member, writesFree taken member,
        pollsWoken taken member⟩
  have resolveOf {state : State Task Value}
      (reachable : Reachable program N allowed task state) :
      ResolveInvariant N state :=
    Reachable.resolveInvariant (fun _ _ permitted => permitted.2.1)
      (fun _ _ permitted => permitted.2.2) reachable
  have valuesOf {state : State Task Value}
      (reachable : Reachable program N allowed task state) :
      ValueInvariant state :=
    Reachable.valueInvariant (fun _ _ permitted => permitted.2.1)
      (fun _ _ permitted => permitted.2.2) reachable
  have windowOf {state : State Task Value}
      (reachable : Reachable program N allowed task state) :
      state.queue.LiveInWindow N :=
    Reachable.liveInWindow (fun _ _ permitted => permitted.2.1) reachable
  refine run.holds_iff_condition initially ?_ ?_ ?_ permitted
  · rintro state reachable ⟨ledger, _⟩
    exact ledger.accounted (resolveOf reachable) (valuesOf reachable)
      (Reachable.enqueueInvariant reachable) (windowOf reachable)
  · rintro before after action earlier ⟨ledger, seenWords, ownCells⟩
      permittedStep dropsValue taken
    have resolve := resolveOf earlier
    have enqueue := Reachable.enqueueInvariant earlier
    have phase := Queue.Reachable.phaseInvariant (Reachable.queue earlier)
    have window := windowOf earlier
    exact ⟨ledger.move resolve (valuesOf earlier) seenWords enqueue phase
        window permittedStep.2.2 dropsValue (step_move taken),
      seenWords.move resolve enqueue phase window ownCells permittedStep.1
        (step_move taken),
      ownCells.move enqueue phase permittedStep.1 (step_move taken)⟩
  · rintro before after action earlier ⟨ledger, seenWords, _⟩ _ taken
      accounted
    exact accounted.dropsValue (resolveOf earlier) (valuesOf earlier)
      ledger seenWords (Reachable.enqueueInvariant earlier)
      (windowOf earlier) (step_move taken)

/-! ## A drop that leaves a set slot alone -/

/-- The first future is enqueued, resolved and dropped without a poll. -/
def droppedUnpolled : List (Action Nat) :=
  enqueueFirst ++ resolveFirst ++ [.drop 0, .spin 0]

/-- When the task type needs to be dropped, so is the value. -/
theorem accounted_iff_drops_value_droppedUnpolled :
    ∃ (trace : List (State Nat Nat × Action Nat)) (state : State Nat Nat),
      Run increment smallestBuffer id trace state ∧
        state.destroyed = [(0, some 1)] ∧
        (((∀ taken ∈ trace, Accounted taken.1) ∧ Accounted state) ↔
          ∀ taken ∈ trace, DropsValue increment taken.1 taken.2) := by
  have performed :
      ((TransitionSystem.executeWhere (step increment smallestBuffer)
          Orderly (initial id) droppedUnpolled).map fun state =>
        state.destroyed) =
        some [(0, some 1)] := by
    decide +kernel
  obtain ⟨state, reached, destroyed⟩ := Option.map_eq_some_iff.mp performed
  obtain ⟨trace, run, orderly⟩ :=
    TransitionSystem.Run.of_executeWhere TransitionSystem.Run.start
      (by simp) reached
  have provisos (taken : State Nat Nat × Action Nat)
      (member : taken ∈ trace) :=
    Orderly.provisos (by decide) (run.reachable_of_mem orderly member)
      (orderly taken member)
  exact ⟨trace, state, run, destroyed,
    accounted_iff_drops_value increment smallestBuffer id trace state run
      (fun taken member => (provisos taken member).1)
      (fun taken member => (provisos taken member).2.1)
      (fun taken member => (provisos taken member).2.2)⟩

/-- The operation adds one; tasks do not need to be dropped. -/
def incrementPlain : Program Nat Nat :=
  ⟨(· + 1), false⟩

/-- When it does not, the value that was passed is lost. -/
theorem droppedUnpolled_leaks :
    ∃ (trace : List (State Nat Nat × Action Nat)) (state : State Nat Nat),
      Run incrementPlain smallestBuffer id trace state ∧
        (∀ taken ∈ trace,
          WritesFree smallestBuffer taken.1 taken.2 ∧
            PollsWoken taken.1 taken.2 ∧
            SparesReceivers taken.1 taken.2) ∧
        ¬ Accounted state := by
  have performed :
      ((TransitionSystem.executeWhere (step incrementPlain smallestBuffer)
          Orderly (initial id) droppedUnpolled).map fun state =>
        (state.passed, state.returned ++ state.destroyed,
          (state.futures 0).receiver?.isSome, state.resolutions 0)) =
        some ([(0, some 1)], [], false, .set) := by
    decide +kernel
  obtain ⟨state, reached, shape⟩ := Option.map_eq_some_iff.mp performed
  simp only [Prod.mk.injEq] at shape
  obtain ⟨passed, settled, noReceiver, isSet⟩ := shape
  obtain ⟨trace, run, orderly⟩ :=
    TransitionSystem.Run.of_executeWhere TransitionSystem.Run.start
      (by simp) reached
  refine ⟨trace, state, run, fun taken member => ?_, fun accounted => ?_⟩
  · exact Orderly.provisos (by decide)
      (run.reachable_of_mem orderly member) (orderly taken member)
  · have kept := accounted.kept (0, some 1) (by simp [passed])
    rw [settled] at kept
    rcases kept with member | ⟨receiver, holds, _⟩ |
      ⟨batch, method, todo, cell, resolving, pointer⟩
    · cases member
    · rw [holds] at noReceiver
      cases noReceiver
    · have orderlyReachable :
          Reachable incrementPlain smallestBuffer Orderly id state :=
        run.reachable orderly
      have reachable :=
        Reachable.disciplined (by decide) (fun _ _ => And.left)
          orderlyReachable
      obtain ⟨future, designates, resolution⟩ :=
        ResolveInvariant.resolving_task
          (Reachable.resolveInvariant_of_disciplined reachable)
          (Reachable.enqueueInvariant reachable)
          (Reachable.liveInWindow_of_disciplined reachable) resolving
      rw [show (state.queue.buffer cell).rx = some 0 from pointer]
        at designates
      cases designates
      rw [isSet] at resolution
      cases resolution

end StackQueue.TaskQueue
