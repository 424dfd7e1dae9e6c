import StackQueue.QueueAdmission

namespace StackQueue.Assignment

/-!
# Range handles and their exit paths

The types of `assignment.rs` and the functions that consume them.  A function
body is the list of its statements that touch the queue, with `mem::forget`
and the construction of the next handle as statements of their own, so that
the destructor Rust runs at the end of a body is explicit: it runs for a
`self` that was not forgotten.

The machine interleaves the owner thread of a queue with the threads that hold
its handles.  Each statement of an exit path is one step of the queue's own
machine, and is stuck where that machine is stuck.
-/

/-- The types a range handle goes through. -/
inductive HandleType where
  | pendingAssignment
  | taskAssignment
  | unboundedRange
  | boundedRange
  | bufferIter
  deriving Repr, DecidableEq

/-- The two kinds of queue: `enqueue` and `push` open different handles. -/
inductive QueueKind where
  | taskRef
  | bufferCell
  deriving Repr, DecidableEq

/-- The handle that an accepting call returns. -/
def QueueKind.opens : QueueKind → HandleType
  | .taskRef => .pendingAssignment
  | .bufferCell => .unboundedRange

/-- What a function body does to the queue and to its values. -/
inductive Statement where
  /-- `set_bounds` or `set_assignment_bounds`. -/
  | setBounds
  /-- Accesses to the cells of the range; user callbacks run here. -/
  | visitCells
  /-- The `fetch_sub` of `deoccupy_region`. -/
  | deoccupyRegion
  /-- The wake loop of `deoccupy_region`. -/
  | wakePending
  /-- `mem::forget(self)`. -/
  | forget
  /-- The value the body returns. -/
  | create (type : HandleType)
  deriving Repr, DecidableEq

/-- The functions that consume a handle, other than its destructor. -/
inductive Method where
  | intoAssignment
  | map
  | resolveWithIter
  | intoBounded
  | toVec
  | intoIter
  deriving Repr, DecidableEq

/-- `deoccupy_buffer`. -/
def deoccupyBuffer : List Statement :=
  [.deoccupyRegion, .wakePending]

/-- `into_completion_receipt`. -/
def intoCompletionReceipt : List Statement :=
  deoccupyBuffer ++ [.forget]

/-- The `Drop` implementations. -/
def dropBody : HandleType → List Statement
  | .taskAssignment | .boundedRange | .bufferIter =>
      .visitCells :: deoccupyBuffer
  | .unboundedRange =>
      .setBounds :: .visitCells :: deoccupyBuffer
  -- binds the range and drops the `TaskAssignment` it makes of it
  | .pendingAssignment =>
      .setBounds :: .visitCells :: deoccupyBuffer

/-- The bodies of the consuming functions. -/
def body : HandleType → Method → Option (List Statement)
  | .pendingAssignment, .intoAssignment =>
      some [.setBounds, .forget, .create .taskAssignment]
  | .taskAssignment, .map =>
      some (.visitCells :: intoCompletionReceipt)
  | .taskAssignment, .resolveWithIter =>
      some (.visitCells :: intoCompletionReceipt)
  | .unboundedRange, .intoBounded =>
      some [.setBounds, .forget, .create .boundedRange]
  | .boundedRange, .toVec =>
      some (.visitCells :: deoccupyBuffer ++ [.forget])
  | .boundedRange, .intoIter =>
      some [.create .bufferIter, .forget]
  | _, _ => none

/-- What exists of a range's handle. -/
inductive Value where
  /-- A value of some type, between calls. -/
  | held (type : HandleType)
  /-- A body in progress: `self` unless forgotten, and the value returned. -/
  | running
      (self : Option HandleType)
      (rest : List Statement)
      (result : Option HandleType)
  /-- Nothing any more. -/
  | gone
  deriving Repr, DecidableEq

/-- A range's handle, with the number of times it was released so far. -/
structure Holding where
  value : Value
  releases : Nat
  deriving Repr, DecidableEq

/-- A queue with the handles of its ranges, oldest first. -/
structure State (Cell Waker : Type) where
  queue : Queue.State Cell Waker
  holdings : List Holding

/-- One step of the owner thread or of a thread that holds a handle. -/
inductive Action (Cell Waker : Type) where
  | call (write : Cell → Cell)
  | owner
  | finish (waker : Option Waker)
  /-- A consuming function is called on a handle. -/
  | invoke (handle : Nat) (method : Method)
  /-- A handle goes out of scope. -/
  | drop (handle : Nat)
  /-- The next statement of the body in progress. -/
  | advance (handle : Nat)
  /-- One iteration of the wake loop in progress. -/
  | steal (handle : Nat) (retry : Bool)
  /-- Any access that changes a cell. -/
  | touch (index : Nat) (update : Cell → Cell)

variable {Cell Waker : Type}

/-- A queue without ranges. -/
def initial (buffer : Nat → Cell) : State Cell Waker where
  queue := Queue.initial buffer
  holdings := []

namespace State

/-- Take a step of the queue that opens no range. -/
def onQueue
    {width : PointerWidth}
    (N : BufferSize width)
    (state : State Cell Waker)
    (action : Queue.Action Cell Waker) :
    Option (State Cell Waker) :=
  (Queue.step N state.queue action).map fun queue =>
    { state with queue := queue }

/-- Replace one holding. -/
def setHolding
    (state : State Cell Waker)
    (index : Nat)
    (holding : Holding) :
    State Cell Waker :=
  { state with holdings := state.holdings.set index holding }

/-- The wake loop of a handle's `deoccupy_region` has ended. -/
def hasReleased (state : State Cell Waker) (index : Nat) : Bool :=
  match state.queue.handles[index]? with
  | some handle => handle.stage = .released
  | none => false

end State

/-- The next statement of a body, or the end of the body. -/
def advance
    {width : PointerWidth}
    (N : BufferSize width)
    (state : State Cell Waker)
    (index releases : Nat)
    (self result : Option HandleType) :
    List Statement → Option (State Cell Waker)
  | [] =>
      match self, result with
      | some type, _ =>
          some (state.setHolding index
            ⟨.running none (dropBody type) result, releases⟩)
      | none, some type =>
          some (state.setHolding index ⟨.held type, releases⟩)
      | none, none =>
          some (state.setHolding index ⟨.gone, releases⟩)
  | .setBounds :: rest =>
      (state.setHolding index
        ⟨.running self rest result, releases⟩).onQueue N (.setBounds index)
  | .visitCells :: rest =>
      some (state.setHolding index
        ⟨.running self rest result, releases⟩)
  | .deoccupyRegion :: rest =>
      (state.setHolding index
        ⟨.running self rest result, releases + 1⟩).onQueue N
          (.deoccupyRegion index)
  | .wakePending :: rest =>
      if state.hasReleased index then
        some (state.setHolding index
          ⟨.running self rest result, releases⟩)
      else
        none
  | .forget :: rest =>
      some (state.setHolding index
        ⟨.running none rest result, releases⟩)
  | .create type :: rest =>
      some (state.setHolding index
        ⟨.running self rest (some type), releases⟩)

/-- The effect of one action, `none` when it is not enabled. -/
def step
    {width : PointerWidth}
    (kind : QueueKind)
    (N : BufferSize width)
    (state : State Cell Waker) :
    Action Cell Waker → Option (State Cell Waker)
  | .call write =>
      state.onQueue N (.call write)
  | .owner =>
      (Queue.step N state.queue .owner).map fun queue => {
        queue := queue
        holdings :=
          if queue.handles.length = state.queue.handles.length then
            state.holdings
          else
            state.holdings ++ [⟨.held kind.opens, 0⟩] }
  | .finish waker =>
      state.onQueue N (.finish waker)
  | .invoke index method =>
      match state.holdings[index]? with
      | some ⟨.held type, releases⟩ =>
          (body type method).map fun rest =>
            state.setHolding index
              ⟨.running (some type) rest none, releases⟩
      | _ => none
  | .drop index =>
      match state.holdings[index]? with
      | some ⟨.held type, releases⟩ =>
          some (state.setHolding index
            ⟨.running none (dropBody type) none, releases⟩)
      | _ => none
  | .advance index =>
      match state.holdings[index]? with
      | some ⟨.running self rest result, releases⟩ =>
          advance N state index releases self result rest
      | _ => none
  | .steal index retry =>
      match state.holdings[index]? with
      | some ⟨.running _ (.wakePending :: _) _, _⟩ =>
          state.onQueue N (.steal index retry)
      | _ => none
  | .touch index update =>
      state.onQueue N (.touch index update)

/-- The states of the runs of a queue with its handles. -/
abbrev Reachable
    {width : PointerWidth}
    (kind : QueueKind)
    (N : BufferSize width)
    (buffer : Nat → Cell)
    (state : State Cell Waker) :
    Prop :=
  TransitionSystem.Reachable (step kind N) TransitionSystem.anyStep
    (initial buffer) state

/-! ## Every body settles its range -/

/-- What a body may assume about its range. -/
inductive Ownership where
  | unbounded
  | bounded
  | released
  deriving Repr, DecidableEq

/-- The stage of a range as its handle sees it. -/
def ownership : Queue.Stage → Ownership
  | .unbounded => .unbounded
  | .bounded _ => .bounded
  | .draining _ | .released => .released

/-- The ownership that comes with a value of a type. -/
def HandleType.expects : HandleType → Ownership
  | .pendingAssignment | .unboundedRange => .unbounded
  | .taskAssignment | .boundedRange | .bufferIter => .bounded

/--
From the given ownership the statements run through, visit cells only while
the range is live, and leave exactly one of a value that fits its range and a
released range.
-/
def settles :
    Ownership →
    Option HandleType →
    Option HandleType →
    List Statement →
    Bool
  | owned, none, none, [] => owned = .released
  | owned, some type, none, [] => type.expects = owned
  | owned, none, some type, [] => type.expects = owned
  | _, some _, some _, [] => false
  | owned, self, result, .setBounds :: rest =>
      owned = .unbounded && settles .bounded self result rest
  | owned, self, result, .visitCells :: rest =>
      owned = .bounded && settles owned self result rest
  | owned, self, result, .deoccupyRegion :: rest =>
      owned = .bounded && settles .released self result rest
  | owned, self, result, .wakePending :: rest =>
      owned = .released && settles owned self result rest
  | owned, _, result, .forget :: rest =>
      settles owned none result rest
  | owned, self, _, .create type :: rest =>
      settles owned self (some type) rest

theorem body_settles
    {type : HandleType}
    {method : Method}
    {rest : List Statement}
    (shape : body type method = some rest) :
    settles type.expects (some type) none rest = true := by
  cases type <;> cases method <;> cases shape <;> rfl

theorem dropBody_settles
    (type : HandleType) :
    settles type.expects none none (dropBody type) = true := by
  cases type <;> rfl

/-- A handle fits the stage its range is in. -/
def Holding.Fits (holding : Holding) (owned : Ownership) : Prop :=
  (match holding.value with
    | .held type => type.expects = owned
    | .running self rest result =>
        settles owned self result rest = true
    | .gone => owned = .released) ∧
  holding.releases = if owned = .released then 1 else 0

/-- Every range has a handle that fits its stage. -/
structure HandleInvariant (state : State Cell Waker) : Prop where
  sameLength :
    state.holdings.length = state.queue.handles.length
  fits :
    ∀ (i : Nat) (holding : Holding) (handle : Queue.Handle),
      state.holdings[i]? = some holding →
      state.queue.handles[i]? = some handle →
      holding.Fits (ownership handle.stage)

/-- A step on the queue changes nothing else. -/
theorem onQueue_some
    {width : PointerWidth}
    {N : BufferSize width}
    {state after : State Cell Waker}
    {action : Queue.Action Cell Waker}
    (taken : state.onQueue N action = some after) :
    ∃ queue,
      Queue.step N state.queue action = some queue ∧
        { state with queue := queue } = after := by
  rw [State.onQueue, Option.map_eq_some_iff] at taken
  exact taken

namespace HandleInvariant

variable
    {width : PointerWidth}
    {N : BufferSize width}
    {state after : State Cell Waker}

theorem initial
    {buffer : Nat → Cell} :
    HandleInvariant (Assignment.initial buffer : State Cell Waker) where
  sameLength := rfl
  fits := by
    intro i holding handle found
    cases found

/-- Every holding has its range. -/
theorem exists_handle
    (invariant : HandleInvariant state)
    {i : Nat}
    {holding : Holding}
    (found : state.holdings[i]? = some holding) :
    ∃ handle,
      state.queue.handles[i]? = some handle ∧
        holding.Fits (ownership handle.stage) := by
  obtain ⟨inBounds, _⟩ := List.getElem?_eq_some_iff.mp found
  rw [invariant.sameLength] at inBounds
  have present := List.getElem?_eq_getElem inBounds
  exact ⟨_, present, invariant.fits i holding _ found present⟩

/-- A step that changes no handle and no holding. -/
theorem of_same
    (invariant : HandleInvariant state)
    (holdings : after.holdings = state.holdings)
    (handles : after.queue.handles = state.queue.handles) :
    HandleInvariant after where
  sameLength := by
    rw [holdings, handles]
    exact invariant.sameLength
  fits := by
    rw [holdings, handles]
    exact invariant.fits

/-- A step of one holding, and perhaps of its range. -/
theorem of_set
    (invariant : HandleInvariant state)
    {i : Nat}
    {holding : Holding}
    {handle : Queue.Handle}
    (holdings : after.holdings = state.holdings.set i holding)
    (handles : after.queue.handles = state.queue.handles.set i handle)
    (fits : holding.Fits (ownership handle.stage)) :
    HandleInvariant after where
  sameLength := by
    rw [holdings, handles, List.length_set, List.length_set]
    exact invariant.sameLength
  fits := by
    intro j other range atOther atRange
    rw [holdings] at atOther
    rw [handles] at atRange
    rcases ListUpdate.getElem?_set_cases atOther with
      ⟨here, isNew⟩ | ⟨elsewhere, wasOther⟩
    · rcases ListUpdate.getElem?_set_cases atRange with
        ⟨_, isRange⟩ | ⟨elsewhere, _⟩
      · rw [isNew, isRange]
        exact fits
      · exact absurd here elsewhere
    · rcases ListUpdate.getElem?_set_cases atRange with
        ⟨here, _⟩ | ⟨_, wasRange⟩
      · exact absurd here elsewhere
      · exact invariant.fits j other range wasOther wasRange

/-- A step of one holding that leaves its range alone. -/
theorem of_setHolding
    (invariant : HandleInvariant state)
    {i : Nat}
    {old holding : Holding}
    (found : state.holdings[i]? = some old)
    (fits :
      ∀ owned, old.Fits owned → holding.Fits owned) :
    HandleInvariant (state.setHolding i holding) := by
  obtain ⟨handle, present, fitted⟩ := invariant.exists_handle found
  refine invariant.of_set rfl ?_ (fits _ fitted)
  obtain ⟨inBounds, shape⟩ := List.getElem?_eq_some_iff.mp present
  rw [← shape]
  exact (List.set_getElem_self inBounds).symm

/-- The owner opens a range and hands out its handle. -/
theorem of_opened
    (invariant : HandleInvariant state)
    (kind : QueueKind)
    {handle : Queue.Handle}
    (stage : handle.stage = .unbounded)
    (holdings :
      after.holdings = state.holdings ++ [⟨.held kind.opens, 0⟩])
    (handles : after.queue.handles = state.queue.handles ++ [handle]) :
    HandleInvariant after where
  sameLength := by
    rw [holdings, handles, List.length_append, List.length_append,
      invariant.sameLength]
    rfl
  fits := by
    intro j other range atOther atRange
    rw [holdings] at atOther
    rw [handles] at atRange
    have inBounds := (List.getElem?_eq_some_iff.mp atOther).1
    rcases ListUpdate.getElem?_concat_cases atOther with
      wasOther | ⟨atEnd, isNew⟩
    · rcases ListUpdate.getElem?_concat_cases atRange with
        wasRange | ⟨atEnd, _⟩
      · exact invariant.fits j other range wasOther wasRange
      · have := (List.getElem?_eq_some_iff.mp wasOther).1
        rw [invariant.sameLength] at this
        omega
    · rcases ListUpdate.getElem?_concat_cases atRange with
        wasRange | ⟨_, isRange⟩
      · have := (List.getElem?_eq_some_iff.mp wasRange).1
        rw [invariant.sameLength] at atEnd
        omega
      · rw [isNew, isRange, stage]
        cases kind <;> exact ⟨rfl, rfl⟩

/-- The next statement of a body keeps every handle fitting its range. -/
theorem advance
    (invariant : HandleInvariant state)
    {i releases : Nat}
    {self result : Option HandleType}
    {rest : List Statement}
    (found :
      state.holdings[i]? = some ⟨.running self rest result, releases⟩)
    (taken :
      Assignment.advance N state i releases self result rest =
        some after) :
    HandleInvariant after := by
  obtain ⟨handle, present, fitted⟩ := invariant.exists_handle found
  cases rest with
  | nil =>
      cases self with
      | some type =>
          cases taken
          refine invariant.of_setHolding found fun owned fits => ?_
          obtain ⟨settled, counted⟩ := fits
          cases result with
          | some _ => cases settled
          | none =>
              have expected : type.expects = owned := by
                simpa [settles] using settled
              subst expected
              exact ⟨dropBody_settles type, counted⟩
      | none =>
          cases result with
          | some type =>
              cases taken
              refine invariant.of_setHolding found fun owned fits => ?_
              exact ⟨by simpa [settles] using fits.1, fits.2⟩
          | none =>
              cases taken
              refine invariant.of_setHolding found fun owned fits => ?_
              exact ⟨by simpa [settles] using fits.1, fits.2⟩
  | cons statement rest =>
      cases statement with
      | setBounds =>
          obtain ⟨queue, stepped, shape⟩ := onQueue_some taken
          subst shape
          cases Queue.step_move stepped with
          | @setBounds _ range atRange stage =>
              have same : range = handle :=
                Option.some.inj (atRange.symm.trans present)
              subst same
              refine invariant.of_set rfl rfl ?_
              obtain ⟨settled, counted⟩ := fitted
              rw [stage] at settled counted
              simp only [settles, Bool.and_eq_true] at settled
              exact ⟨settled.2, counted⟩
      | visitCells =>
          cases taken
          refine invariant.of_setHolding found fun owned fits => ?_
          obtain ⟨settled, counted⟩ := fits
          simp only [settles, Bool.and_eq_true] at settled
          exact ⟨settled.2, counted⟩
      | deoccupyRegion =>
          obtain ⟨queue, stepped, shape⟩ := onQueue_some taken
          subst shape
          cases Queue.step_move stepped with
          | @deoccupyRegion _ range counters atRange stage =>
              have same : range = handle :=
                Option.some.inj (atRange.symm.trans present)
              subst same
              obtain ⟨settled, counted⟩ := fitted
              rw [stage] at settled counted
              simp only [settles, Bool.and_eq_true] at settled
              refine invariant.of_set rfl rfl ?_
              split
              · exact ⟨settled.2, congrArg Nat.succ counted⟩
              · exact ⟨settled.2, congrArg Nat.succ counted⟩
      | wakePending =>
          simp only [Assignment.advance] at taken
          split at taken
          · cases taken
            refine invariant.of_setHolding found fun owned fits => ?_
            obtain ⟨settled, counted⟩ := fits
            simp only [settles, Bool.and_eq_true] at settled
            exact ⟨settled.2, counted⟩
          · cases taken
      | forget =>
          cases taken
          refine invariant.of_setHolding found fun owned fits => ?_
          exact ⟨by simpa [settles] using fits.1, fits.2⟩
      | create type =>
          cases taken
          refine invariant.of_setHolding found fun owned fits => ?_
          exact ⟨by simpa [settles] using fits.1, fits.2⟩

/-- A step of the owner thread keeps every handle fitting its range. -/
theorem owner
    {kind : QueueKind}
    (invariant : HandleInvariant state)
    (taken : step kind N state .owner = some after) :
    HandleInvariant after := by
  obtain ⟨queue, stepped, shape⟩ := Option.map_eq_some_iff.mp taken
  subst shape
  rcases (Queue.ownerStep_move stepped).handles with
    same | ⟨index, baseSlot, at_, opened⟩
  · refine invariant.of_same ?_ same
    simp only [same, if_true]
  · refine invariant.of_opened kind rfl ?_ opened
    rw [opened, List.length_append, if_neg (by simp)]

/-- Every step keeps every handle fitting its range. -/
theorem step
    {kind : QueueKind}
    {action : Action Cell Waker}
    (invariant : HandleInvariant state)
    (taken : step kind N state action = some after) :
    HandleInvariant after := by
  cases action with
  | owner =>
      exact invariant.owner taken
  | call write =>
      obtain ⟨queue, stepped, shape⟩ := onQueue_some taken
      subst shape
      cases Queue.step_move stepped with
      | call at_ => exact invariant.of_same rfl rfl
  | finish waker =>
      obtain ⟨queue, stepped, shape⟩ := onQueue_some taken
      subst shape
      cases Queue.step_move stepped with
      | finish at_ => exact invariant.of_same rfl rfl
      | register at_ => exact invariant.of_same rfl rfl
  | touch index update =>
      obtain ⟨queue, stepped, shape⟩ := onQueue_some taken
      subst shape
      cases Queue.step_move stepped with
      | touch => exact invariant.of_same rfl rfl
  | invoke i method =>
      simp only [Assignment.step] at taken
      split at taken
      · rename_i type releases found
        obtain ⟨rest, shape, isAfter⟩ := Option.map_eq_some_iff.mp taken
        subst isAfter
        refine invariant.of_setHolding found fun owned fits => ?_
        obtain ⟨expected, counted⟩ := fits
        subst expected
        exact ⟨body_settles shape, counted⟩
      · cases taken
  | drop i =>
      simp only [Assignment.step] at taken
      split at taken
      · rename_i type releases found
        cases taken
        refine invariant.of_setHolding found fun owned fits => ?_
        obtain ⟨expected, counted⟩ := fits
        subst expected
        exact ⟨dropBody_settles type, counted⟩
      · cases taken
  | advance i =>
      simp only [Assignment.step] at taken
      split at taken
      · rename_i self rest result releases found
        exact invariant.advance found taken
      · cases taken
  | steal i retry =>
      simp only [Assignment.step] at taken
      split at taken
      · rename_i self rest result releases found
        obtain ⟨queue, stepped, shape⟩ := onQueue_some taken
        subst shape
        cases Queue.step_move stepped with
        | retry atRange stage => exact invariant.of_same rfl rfl
        | @steal _ batchLimit range atRange stage =>
            obtain ⟨handle, present, fitted⟩ := invariant.exists_handle found
            have same : range = handle :=
              Option.some.inj (atRange.symm.trans present)
            subst same
            rw [stage] at fitted
            obtain ⟨left, replaced, releasing⟩ :=
              Queue.steal_handles state.queue i range batchLimit
            obtain ⟨inBounds, shape⟩ := List.getElem?_eq_some_iff.mp found
            have unchanged :
                state.holdings =
                  state.holdings.set i
                    ⟨.running self (.wakePending :: rest) result,
                      releases⟩ := by
              rw [← shape, List.set_getElem_self]
            refine invariant.of_set unchanged replaced ?_
            rcases releasing with ended | ⟨batchLimit, more⟩
            · rw [ended]
              exact fitted
            · rw [more]
              exact fitted
      · cases taken

end HandleInvariant

section Runs

variable
    {width : PointerWidth}
    {kind : QueueKind}
    {N : BufferSize width}
    {buffer : Nat → Cell}
    {state : State Cell Waker}

theorem Reachable.handleInvariant
    (reachable : Reachable kind N buffer state) :
    HandleInvariant state :=
  TransitionSystem.Reachable.invariant .initial
    (fun _ invariant _ taken => invariant.step taken) reachable

/-- The actions of the machine that perform an action of the queue. -/
def Action.Performs
    (action : Action Cell Waker) :
    Queue.Action Cell Waker → Prop
  | .call write => action = .call write
  | .owner => action = .owner
  | .finish waker => action = .finish waker
  | .setBounds index | .deoccupyRegion index => action = .advance index
  | .steal index retry => action = .steal index retry
  | .touch index update => action = .touch index update

/-- A step of the machine is at most one step of its queue. -/
theorem step_queue
    {after : State Cell Waker}
    {action : Action Cell Waker}
    (taken : step kind N state action = some after) :
    after.queue = state.queue ∨
      ∃ queueAction,
        action.Performs queueAction ∧
          Queue.step N state.queue queueAction = some after.queue := by
  have lift
      {middle : State Cell Waker}
      {queueAction : Queue.Action Cell Waker}
      (taken : middle.onQueue N queueAction = some after)
      (same : middle.queue = state.queue)
      (performs : action.Performs queueAction) :
      after.queue = state.queue ∨
        ∃ queueAction,
          action.Performs queueAction ∧
            Queue.step N state.queue queueAction = some after.queue := by
    obtain ⟨queue, stepped, shape⟩ := onQueue_some taken
    subst shape
    rw [same] at stepped
    exact Or.inr ⟨_, performs, stepped⟩
  cases action with
  | call write | finish waker | touch index update =>
      exact lift taken rfl rfl
  | owner =>
      obtain ⟨queue, stepped, shape⟩ := Option.map_eq_some_iff.mp taken
      subst shape
      exact Or.inr ⟨.owner, rfl, stepped⟩
  | invoke i method =>
      simp only [step] at taken
      split at taken
      · obtain ⟨rest, shape, isAfter⟩ := Option.map_eq_some_iff.mp taken
        subst isAfter
        exact Or.inl rfl
      · cases taken
  | drop i =>
      simp only [step] at taken
      split at taken <;> cases taken
      exact Or.inl rfl
  | advance i =>
      simp only [step] at taken
      split at taken
      · rename_i self rest result releases found
        unfold advance at taken
        split at taken
        · split at taken <;> cases taken <;> exact Or.inl rfl
        · exact lift taken rfl rfl
        · cases taken
          exact Or.inl rfl
        · exact lift taken rfl rfl
        · split at taken <;> cases taken
          exact Or.inl rfl
        · cases taken
          exact Or.inl rfl
        · cases taken
          exact Or.inl rfl
      · cases taken
  | steal i retry =>
      simp only [step] at taken
      split at taken
      · exact lift taken rfl rfl
      · cases taken

/-- The queue inside a run of the machine makes a run of its own. -/
theorem Reachable.queue
    (reachable : Reachable kind N buffer state) :
    Queue.Reachable N buffer state.queue :=
  TransitionSystem.Reachable.project State.queue
    (fun _ _ taken =>
      (step_queue taken).imp_right fun ⟨action, _, stepped⟩ =>
        ⟨action, trivial, stepped⟩)
    reachable

end Runs

end StackQueue.Assignment
