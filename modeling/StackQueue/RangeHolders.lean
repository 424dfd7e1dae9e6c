import StackQueue.RangeTasks

namespace StackQueue.RangeTasks

open Queue IntervalChain RangeConsumers

/-!
# What the holders of ranges find

`CallInvariant` follows the tasks into the buffer: those of the accepted pushes
are the contents of the accepted positions.  `HolderInvariant` follows the
holders: whatever the code that holds a range does, it has moved out or dropped
the range's first tasks, in order, up to the counter it has reached.

Both hold in every run of a safe buffer.  A destructor or an iterator counts
raw counters, so it finds nothing in a range whose end counter has wrapped to
its start or below; `to_vec` cuts slices and finds every task.
-/

variable {width : PointerWidth} {Task : Type}

/-! ## The pushes -/

/-- What the owner's program point says about the push in progress. -/
def CallAt
    (call : Option Task)
    (buffer : Nat → Option Task) :
    Owner (Option Task) → Prop
  | .idle => call = none
  | .entered write | .checking write _ | .loading write _
  | .writing write _ =>
      ∃ task, call = some task ∧ write = fun _ => some task
  | .adding index => ∃ task, call = some task ∧ buffer index = some task
  | .replacing _ _ | .occupying _ _ | .returning _ =>
      ∃ task, call = some task

/-- The tasks on their way into the buffer and in it. -/
structure CallInvariant
    (N : BufferSize width)
    (state : State Task) : Prop where
  callAt : CallAt state.call state.queue.buffer state.queue.owner
  contents : Contents N state.queue (state.pushed.map some)

namespace CallInvariant

variable
    {N : BufferSize width}
    {needsDrop : Bool}
    {state after : State Task}

theorem initial :
    CallInvariant N (RangeTasks.initial : State Task) where
  callAt := rfl
  contents := .initial

/-- The owner accepts the task that the push was given. -/
theorem accepting_eq
    (invariant : CallInvariant N state) :
    state.accepting.map some = state.queue.accepting := by
  have callAt := invariant.callAt
  cases at_ : state.queue.owner with
  | adding index =>
      rw [at_] at callAt
      obtain ⟨task, called, stored⟩ := callAt
      simp [State.accepting, Queue.State.accepting, at_, called, stored]
  | _ =>
      simp [State.accepting, Queue.State.accepting, at_]

/-- The owner's moves within a push. -/
theorem owner
    (invariant : CallInvariant N state)
    (phase : PhaseInvariant N state.queue)
    {queue : Queue.State (Option Task) Nat}
    (moved : OwnerMove N state.queue queue) :
    CallInvariant N
      { state with
        pushed := state.pushed ++ state.accepting
        queue := queue } where
  callAt := by
    have callAt := invariant.callAt
    cases moved with
    | write at_ =>
        rw [at_] at callAt
        obtain ⟨task, called, writes⟩ := callAt
        refine ⟨task, called, ?_⟩
        change (state.queue.updateCell _ _).buffer _ = some task
        rw [State.updateCell_self, writes]
    | enterAtBoundary at_ _ | enterInside at_ _ | cachedFree at_ _
    | cachedBusy at_ _ | loadedFree at_ _ =>
        rw [at_] at callAt
        exact callAt
    | loadedBusy at_ _ | add at_ =>
        rw [at_] at callAt
        obtain ⟨task, called, _⟩ := callAt
        exact ⟨task, called⟩
    | replaceJoined at_ _ | replaceOpening at_ _ | occupy at_ =>
        rw [at_] at callAt
        exact callAt
  contents := by
    rw [List.map_append, invariant.accepting_eq]
    exact invariant.contents.ownerMove phase moved

/-- A step of the queue that is not the owner's. -/
theorem of_other
    (invariant : CallInvariant N state)
    {action : Queue.Action (Option Task) Nat}
    (moved : Queue.Move N state.queue action after.queue)
    (onHandle : action.isOnHandle = true)
    (call : after.call = state.call)
    (pushed : after.pushed = state.pushed) :
    CallInvariant N after where
  callAt := by
    obtain ⟨owner, buffer, _⟩ := moved.frame onHandle
    rw [owner, buffer, call]
    exact invariant.callAt
  contents := by
    rw [pushed]
    apply invariant.contents.move _ _ moved
    all_goals cases action <;> trivial

theorem of_same
    (invariant : CallInvariant N state)
    (queue : after.queue = state.queue)
    (call : after.call = state.call)
    (pushed : after.pushed = state.pushed) :
    CallInvariant N after where
  callAt := by
    rw [queue, call]
    exact invariant.callAt
  contents := by
    rw [queue, pushed]
    exact invariant.contents

/-- Every step keeps the pushes and the buffer together. -/
theorem move
    {action : Action Task}
    (invariant : CallInvariant N state)
    (phase : PhaseInvariant N state.queue)
    (moved : Move N needsDrop state action after) :
    CallInvariant N after := by
  cases moved with
  | owner moved =>
      exact invariant.owner phase moved
  | push idle moved =>
      constructor
      case callAt =>
        cases moved
        exact ⟨_, rfl, rfl⟩
      case contents =>
        exact invariant.contents.move rfl rfl moved
  | finish moved =>
      constructor
      case callAt =>
        cases moved <;> rfl
      case contents =>
        exact invariant.contents.move rfl rfl moved
  | bound on held returned moved found stage holds
  | releaseCopied held moved | releaseDropped held emptied moved
  | steal held moved =>
      exact invariant.of_other moved rfl rfl rfl
  | rehold on held holds | copy held | visit on held holds more
  | exhausted held atEnd | stop held | complete held released =>
      exact invariant.of_same rfl rfl rfl

end CallInvariant

theorem Reachable.callInvariant
    {N : BufferSize width}
    {needsDrop : Bool}
    {state : State Task}
    (reachable : Reachable N needsDrop state) :
    CallInvariant N state :=
  TransitionSystem.Reachable.invariant CallInvariant.initial
    (fun earlier invariant _ taken =>
      invariant.move (Reachable.queue earlier).phaseInvariant
        (step_move taken))
    reachable

/-! ## The holders -/

/-- The tasks of the first positions of a range. -/
def tasksUpTo
    (tasks : List Task)
    (handle : Handle)
    (position : Nat) :
    List (Option Task) :=
  slice (tasks.map some) ⟨handle.first, position⟩

/-- The tasks of a bounded range. -/
def tasksOf (tasks : List Task) (handle : Handle) : List (Option Task) :=
  tasksUpTo tasks handle handle.last

/-- The end counter of a bounded range is not above its start counter. -/
def Wraps (width : PointerWidth) (handle : Handle) : Prop :=
  handle.last % 2 ^ width.indexShift ≤ handle.first % 2 ^ width.indexShift

/-- The range's first tasks have been taken, those before a position. -/
structure TakenUpTo
    (tasks : List Task)
    (handle : Handle)
    (taken : List (Option Task))
    (position : Nat) : Prop where
  begun : handle.first ≤ position
  upTo : position ≤ handle.last
  shape : taken = tasksUpTo tasks handle position

/-- Where an iterator or a destructor stands that has come to a position. -/
structure CountsTo
    (handle : Handle)
    (iter : BufferIter)
    (position : Nat) : Prop where
  stage : handle.stage = .bounded iter.range
  current : iter.current = iter.range.start + (position - handle.first)
  /-- It moves on only while its counter is below the end. -/
  moved : handle.first < position → iter.range.start < iter.range.stop

/-- What has been taken from a range when it is released. -/
structure Outcome
    (width : PointerWidth)
    (needsDrop : Bool)
    (tasks : List Task)
    (handle : Handle)
    (taken : List (Option Task))
    (copied : Bool) : Prop where
  some_ : ∃ position, TakenUpTo tasks handle taken position
  copied_ : copied = true → taken = tasksOf tasks handle
  wrapped :
    copied = false →
    Wraps width handle →
    taken = []
  dropped :
    copied = false →
    needsDrop = true →
    ¬ Wraps width handle →
    taken = tasksOf tasks handle

/-- What the code that holds a range has made of it. -/
def HolderAt
    (N : BufferSize width)
    (needsDrop : Bool)
    (tasks : List Task)
    (handle : Handle)
    (taken : List (Option Task)) :
    Holder → Prop
  | .unbounded => handle.stage = .unbounded ∧ taken = []
  | .bounded range => handle.stage = .bounded range ∧ taken = []
  | .copying range todo =>
      handle.stage = .bounded range ∧
        ∃ position,
          TakenUpTo tasks handle taken position ∧
            todo = CircularBuffer.window N.size position handle.last
  | .iterating iter | .dropping iter =>
      ∃ position,
        TakenUpTo tasks handle taken position ∧
          CountsTo handle iter position
  | .releasing copied =>
      (handle.stage = .released ∨ ∃ left, handle.stage = .draining left) ∧
        Outcome width needsDrop tasks handle taken copied
  | .finished copied =>
      handle.stage = .released ∧
        Outcome width needsDrop tasks handle taken copied

/-- Each range is where its holder says, and gave what its cells held. -/
structure HolderInvariant
    (N : BufferSize width)
    (needsDrop : Bool)
    (state : State Task) : Prop where
  fresh :
    ∀ batch,
      state.queue.handles.length ≤ batch →
      state.holders batch = .unbounded ∧ state.taken batch = []
  held :
    ∀ (batch : Nat) (handle : Handle),
      state.queue.handles[batch]? = some handle →
      HolderAt N needsDrop state.pushed handle (state.taken batch)
        (state.holders batch)

/-! ### Tasks pushed later -/

section Newest

variable
    {N : BufferSize width}
    {needsDrop copied : Bool}
    {tasks : List Task}
    {handle : Handle}
    {taken : List (Option Task)}
    {position : Nat}

theorem tasksUpTo_append
    (within : position ≤ tasks.length)
    (newest : List Task) :
    tasksUpTo (tasks ++ newest) handle position =
      tasksUpTo tasks handle position := by
  rw [tasksUpTo, List.map_append, slice_append, tasksUpTo]
  rw [List.length_map]
  exact within

theorem TakenUpTo.of_append
    (taking : TakenUpTo tasks handle taken position)
    (within : handle.last ≤ tasks.length)
    (newest : List Task) :
    TakenUpTo (tasks ++ newest) handle taken position where
  begun := taking.begun
  upTo := taking.upTo
  shape := by
    rw [tasksUpTo_append (Nat.le_trans taking.upTo within)]
    exact taking.shape

theorem Outcome.of_append
    (outcome : Outcome width needsDrop tasks handle taken copied)
    (within : handle.last ≤ tasks.length)
    (newest : List Task) :
    Outcome width needsDrop (tasks ++ newest) handle taken copied where
  some_ := by
    obtain ⟨position, taking⟩ := outcome.some_
    exact ⟨position, taking.of_append within newest⟩
  copied_ := by
    rw [tasksOf, tasksUpTo_append within]
    exact outcome.copied_
  wrapped := outcome.wrapped
  dropped := by
    rw [tasksOf, tasksUpTo_append within]
    exact outcome.dropped

/-- How far its release has come does not change what was taken. -/
theorem Outcome.of_stage
    (outcome : Outcome width needsDrop tasks handle taken copied)
    (stage : Stage) :
    Outcome width needsDrop tasks { handle with stage := stage } taken
      copied where
  some_ := by
    obtain ⟨position, begun, upTo, shape⟩ := outcome.some_
    exact ⟨position, begun, upTo, shape⟩
  copied_ := outcome.copied_
  wrapped := outcome.wrapped
  dropped := outcome.dropped

/-- Tasks pushed later do not change what was made of a range. -/
theorem HolderAt.of_append
    {holder : Holder}
    (holds : HolderAt N needsDrop tasks handle taken holder)
    (within : handle.isUnbounded = false → handle.last ≤ tasks.length)
    (newest : List Task) :
    HolderAt N needsDrop (tasks ++ newest) handle taken holder := by
  cases holder with
  | unbounded | bounded range =>
      exact holds
  | copying range todo =>
      obtain ⟨stage, position, taking, indices⟩ := holds
      have bounded := within (by simp [Handle.isUnbounded, stage])
      exact ⟨stage, position, taking.of_append bounded newest, indices⟩
  | iterating iter | dropping iter =>
      obtain ⟨position, taking, counts⟩ := holds
      have bounded := within (by simp [Handle.isUnbounded, counts.stage])
      exact ⟨position, taking.of_append bounded newest, counts⟩
  | releasing copied =>
      obtain ⟨stage, outcome⟩ := holds
      have bounded : handle.isUnbounded = false := by
        rcases stage with released | ⟨left, draining⟩
        · simp [Handle.isUnbounded, released]
        · simp [Handle.isUnbounded, draining]
      exact ⟨stage, outcome.of_append (within bounded) newest⟩
  | finished copied =>
      obtain ⟨stage, outcome⟩ := holds
      have bounded := within (by simp [Handle.isUnbounded, stage])
      exact ⟨stage, outcome.of_append bounded newest⟩

end Newest

/-! ### Counting up -/

section Counting

variable
    {N : BufferSize width}
    {handle : Handle}
    {iter : BufferIter}
    {position : Nat}

/-- A range of at most one buffer that does not wrap has as many counters. -/
theorem counter_difference
    (N : BufferSize width)
    {first last : Nat}
    (nonempty : first < last)
    (near : last ≤ first + N.size)
    (forward :
      first % 2 ^ width.indexShift < last % 2 ^ width.indexShift) :
    last % 2 ^ width.indexShift =
      first % 2 ^ width.indexShift + (last - first) := by
  have small : N.size ≤ 2 ^ width.indexShift :=
    Nat.le_of_dvd (Nat.two_pow_pos _) N.size_dvd_counter
  have stop := Nat.mod_lt last (Nat.two_pow_pos width.indexShift)
  have start := Nat.div_add_mod first (2 ^ width.indexShift)
  have ends := Nat.div_add_mod last (2 ^ width.indexShift)
  generalize 2 ^ width.indexShift = counters at *
  generalize first % counters = startCounter at *
  generalize last % counters = stopCounter at *
  have sameLap : last / counters = first / counters := by
    apply Nat.le_antisymm
    · by_contra later
      have more :=
        Nat.mul_le_mul_left counters (Nat.lt_of_not_le later)
      rw [Nat.mul_succ] at more
      omega
    · exact Nat.div_le_div_right (Nat.le_of_lt nonempty)
  rw [sameLap] at ends
  omega

namespace CountsTo

/-- At the start of a bounded range nothing has been visited. -/
theorem start
    {range : CounterRange}
    (stage : handle.stage = .bounded range) :
    CountsTo handle (intoIter range) handle.first where
  stage := stage
  current := by
    rw [Nat.sub_self]
    rfl
  moved := by
    intro after
    exact absurd after (Nat.lt_irrefl _)

/-- While counters are left, positions are left, and the cell is theirs. -/
theorem next
    {Cell Waker : Type}
    {state : Queue.State Cell Waker}
    (counts : CountsTo handle iter position)
    (phase : PhaseInvariant N state)
    (window : state.LiveInWindow N)
    (member : handle ∈ state.handles)
    (begun : handle.first ≤ position)
    (more : iter.current < iter.range.stop) :
    position < handle.last ∧
      iter.current &&& (N.size - 1) = position % N.size ∧
      CountsTo handle { iter with current := iter.current + 1 }
        (position + 1) := by
  have bounded : handle.isUnbounded = false := by
    simp [Handle.isUnbounded, counts.stage]
  have live : handle.isLive = true := by
    simp [Handle.isLive, counts.stage]
  obtain ⟨nonempty, upTo⟩ := phase.bounded_positions member bounded
  have near : handle.last ≤ handle.first + N.size :=
    Nat.le_trans upTo
      (window.inWindow member live (Nat.le_refl _)).1
  have range := phase.counters handle member iter.range counts.stage
  have current := counts.current
  have forward : iter.range.start < iter.range.stop := by omega
  have difference :
      iter.range.stop =
        iter.range.start + (handle.last - handle.first) := by
    rw [range] at forward ⊢
    exact counter_difference N nonempty near forward
  refine ⟨by omega, ?_, ?_⟩
  · have split : handle.first + (position - handle.first) = position :=
      Nat.add_sub_cancel' begun
    rw [current, range, N.and_size_sub_one, ← Nat.mod_add_mod,
      N.mod_counter_mod, Nat.mod_add_mod, split]
  · constructor
    case stage => exact counts.stage
    case current =>
      change iter.current + 1 = _
      rw [current, Nat.add_assoc, Nat.sub_add_comm begun]
    case moved => exact fun _ => forward

/-- A destructor that has no counters left has visited all or nothing. -/
theorem atEnd
    {Cell Waker : Type}
    {state : Queue.State Cell Waker}
    (counts : CountsTo handle iter position)
    (phase : PhaseInvariant N state)
    (window : state.LiveInWindow N)
    (member : handle ∈ state.handles)
    (begun : handle.first ≤ position)
    (upTo : position ≤ handle.last) :
    (Wraps width handle → position = handle.first) ∧
      (¬ iter.current < iter.range.stop →
        ¬ Wraps width handle →
        position = handle.last) := by
  have bounded : handle.isUnbounded = false := by
    simp [Handle.isUnbounded, counts.stage]
  have live : handle.isLive = true := by
    simp [Handle.isLive, counts.stage]
  obtain ⟨nonempty, accepted⟩ := phase.bounded_positions member bounded
  have near : handle.last ≤ handle.first + N.size :=
    Nat.le_trans accepted
      (window.inWindow member live (Nat.le_refl _)).1
  have range := phase.counters handle member iter.range counts.stage
  constructor
  · intro wraps
    by_contra visited
    have forward := counts.moved (by omega)
    rw [range] at forward
    exact absurd wraps (Nat.not_le_of_lt forward)
  · intro exhausted forward
    have difference :=
      counter_difference N nonempty near (Nat.lt_of_not_le forward)
    have current := counts.current
    rw [range] at exhausted current
    simp only at exhausted current
    omega

end CountsTo

end Counting

/-! ### Steps -/

namespace HolderInvariant

variable
    {N : BufferSize width}
    {needsDrop : Bool}
    {state after : State Task}

theorem initial :
    HolderInvariant N needsDrop (RangeTasks.initial : State Task) where
  fresh := by
    intro batch _
    exact ⟨rfl, rfl⟩
  held := by
    intro batch handle found
    cases found

/-- A range whose code has begun to use it exists. -/
theorem exists_handle
    (invariant : HolderInvariant N needsDrop state)
    {batch : Nat}
    (begun : state.holders batch ≠ .unbounded) :
    ∃ handle, state.queue.handles[batch]? = some handle := by
  by_cases within : batch < state.queue.handles.length
  · exact ⟨_, List.getElem?_eq_getElem within⟩
  · exact (begun (invariant.fresh batch (Nat.le_of_not_lt within)).1).elim

/-- A step that concerns one range. -/
theorem of_batch
    (invariant : HolderInvariant N needsDrop state)
    {batch : Nat}
    {old new : Handle}
    (found : state.queue.handles[batch]? = some old)
    (handles :
      after.queue.handles = state.queue.handles.set batch new)
    (holders :
      ∀ other, other ≠ batch → after.holders other = state.holders other)
    (taken :
      ∀ other, other ≠ batch → after.taken other = state.taken other)
    (pushed : after.pushed = state.pushed)
    (holds :
      HolderAt N needsDrop state.pushed new (after.taken batch)
        (after.holders batch)) :
    HolderInvariant N needsDrop after where
  fresh := by
    intro other beyond
    rw [handles, List.length_set] at beyond
    have within := (List.getElem?_eq_some_iff.mp found).1
    have differs : other ≠ batch := Nat.ne_of_gt (by omega)
    rw [holders other differs, taken other differs]
    exact invariant.fresh other beyond
  held := by
    intro other handle atOther
    rw [handles] at atOther
    rw [pushed]
    rcases ListUpdate.getElem?_set_cases atOther with
      ⟨here, isNew⟩ | ⟨differs, before⟩
    · subst here isNew
      exact holds
    · rw [holders other differs, taken other differs]
      exact invariant.held other handle before

/-- A step of the code that holds a range, which leaves the queue alone. -/
theorem of_holder
    (invariant : HolderInvariant N needsDrop state)
    {batch : Nat}
    (begun : state.holders batch ≠ .unbounded)
    (queue : after.queue = state.queue)
    (holders :
      ∀ other, other ≠ batch → after.holders other = state.holders other)
    (taken :
      ∀ other, other ≠ batch → after.taken other = state.taken other)
    (pushed : after.pushed = state.pushed)
    (holds :
      ∀ handle,
        state.queue.handles[batch]? = some handle →
        HolderAt N needsDrop state.pushed handle (state.taken batch)
          (state.holders batch) →
        HolderAt N needsDrop state.pushed handle (after.taken batch)
          (after.holders batch)) :
    HolderInvariant N needsDrop after := by
  obtain ⟨handle, found⟩ := invariant.exists_handle begun
  apply invariant.of_batch found
  case handles =>
    rw [queue, ListUpdate.set_of_getElem? found]
  case holders => exact holders
  case taken => exact taken
  case pushed => exact pushed
  case holds => exact holds handle found (invariant.held batch handle found)

/-- A step of a push, which may accept a task or create a range. -/
theorem of_push
    (invariant : HolderInvariant N needsDrop state)
    (phase : PhaseInvariant N state.queue)
    (count : state.pushed.length = state.queue.accepted)
    (handles :
      after.queue.handles = state.queue.handles ∨
        ∃ baseSlot first,
          after.queue.handles =
            state.queue.handles ++ [⟨baseSlot, .unbounded, first, 0⟩])
    {newest : List Task}
    (pushed : after.pushed = state.pushed ++ newest)
    (holders : after.holders = state.holders)
    (taken : after.taken = state.taken) :
    HolderInvariant N needsDrop after := by
  have earlier
      (batch : Nat)
      (handle : Handle)
      (found : state.queue.handles[batch]? = some handle) :
      HolderAt N needsDrop after.pushed handle (after.taken batch)
        (after.holders batch) := by
    rw [pushed, holders, taken]
    apply (invariant.held batch handle found).of_append
    intro bounded
    rw [count]
    exact
      (phase.bounded_positions (List.mem_of_getElem? found) bounded).2
  rcases handles with same | ⟨baseSlot, first, added⟩
  · constructor
    case fresh =>
      rw [same, holders, taken]
      exact invariant.fresh
    case held =>
      rw [same]
      exact earlier
  · constructor
    case fresh =>
      intro batch beyond
      rw [added, List.length_append] at beyond
      rw [holders, taken]
      exact invariant.fresh batch (Nat.le_of_add_right_le beyond)
    case held =>
      intro batch handle found
      rw [added] at found
      rcases ListUpdate.getElem?_concat_cases found with
        before | ⟨isNewest, shape⟩
      · exact earlier batch handle before
      · obtain ⟨unbounded, empty⟩ :=
          invariant.fresh batch (Nat.le_of_eq isNewest.symm)
        rw [holders, taken, unbounded, empty, shape]
        exact ⟨rfl, rfl⟩

/-- Bounding a range puts its holder at the range's start. -/
theorem bound
    (invariant : HolderInvariant N needsDrop state)
    (phaseAfter : PhaseInvariant N after.queue)
    {batch : Nat}
    {handle : Handle}
    {range : CounterRange}
    {holder : Holder}
    (held : state.holders batch = .unbounded)
    (moved : Queue.Move N state.queue (.setBounds batch) after.queue)
    (found : after.queue.handles[batch]? = some handle)
    (stage : handle.stage = .bounded range)
    (holds :
      holder = .bounded range ∨ holder = .dropping (intoIter range))
    (holders :
      after.holders = Function.update state.holders batch holder)
    (taken : after.taken = state.taken)
    (pushed : after.pushed = state.pushed) :
    HolderInvariant N needsDrop after := by
  have nonempty :=
    (phaseAfter.bounded_positions (List.mem_of_getElem? found)
      (by simp [Handle.isUnbounded, stage])).1
  generalize queue : after.queue = queueAfter at moved found
  cases moved with
  | @setBounds _ old before wasUnbounded =>
      obtain ⟨_, handles⟩ := setBounds_handles before found
      apply invariant.of_batch before
      case handles =>
        rw [queue]
        exact handles
      case holders =>
        intro other differs
        rw [holders, Function.update_of_ne differs]
      case taken =>
        intro other _
        rw [taken]
      case pushed => exact pushed
      case holds =>
        have untouched := invariant.held batch old before
        rw [held] at untouched
        rw [holders, Function.update_self, taken, untouched.2]
        rcases holds with isBounded | isDropping
        · subst isBounded
          exact ⟨stage, rfl⟩
        · subst isDropping
          refine ⟨handle.first, ?_, .start stage⟩
          refine ⟨Nat.le_refl _, Nat.le_of_lt nonempty, ?_⟩
          simp [tasksUpTo, slice]

/-- A bounded range is viewed as a `Vec`, an iterator or garbage. -/
theorem rehold
    (invariant : HolderInvariant N needsDrop state)
    (phase : PhaseInvariant N state.queue)
    (window : state.queue.LiveInWindow N)
    {batch : Nat}
    {range : CounterRange}
    {holder : Holder}
    (held : state.holders batch = .bounded range)
    (holds :
      holder = .copying range (taskIndices N range) ∨
        holder = .iterating (intoIter range) ∨
          holder = .dropping (intoIter range)) :
    HolderInvariant N needsDrop (state.setHolder batch holder) := by
  apply invariant.of_holder
  case begun =>
    rw [held]
    intro none
    cases none
  case queue => rfl
  case holders =>
    intro other differs
    exact Function.update_of_ne differs _ _
  case taken => exact fun _ _ => rfl
  case pushed => rfl
  case holds =>
    intro handle found holding
    rw [held] at holding
    obtain ⟨stage, empty⟩ := holding
    have member := List.mem_of_getElem? found
    have nonempty :=
      (phase.bounded_positions member
        (by simp [Handle.isUnbounded, stage])).1
    have taking :
        TakenUpTo state.pushed handle (state.taken batch)
          handle.first := by
      refine ⟨Nat.le_refl _, Nat.le_of_lt nonempty, ?_⟩
      rw [empty]
      simp [tasksUpTo, slice]
    change HolderAt N needsDrop state.pushed handle (state.taken batch)
      (Function.update state.holders batch holder batch)
    rw [Function.update_self]
    rcases holds with isCopying | isIterating | isDropping
    · subst isCopying
      exact ⟨stage, handle.first, taking,
        window.taskIndices_of_live phase member stage⟩
    · subst isIterating
      exact ⟨handle.first, taking, .start stage⟩
    · subst isDropping
      exact ⟨handle.first, taking, .start stage⟩

/-- The cell of a range's next position holds the position's task. -/
theorem take
    (call : CallInvariant N state)
    (phase : PhaseInvariant N state.queue)
    (window : state.queue.LiveInWindow N)
    {batch index position : Nat}
    {handle : Handle}
    {range : CounterRange}
    (found : state.queue.handles[batch]? = some handle)
    (stage : handle.stage = .bounded range)
    (taking :
      TakenUpTo state.pushed handle (state.taken batch) position)
    (unfinished : position < handle.last)
    (isIndex : index = position % N.size) :
    TakenUpTo state.pushed handle
      (state.taken batch ++ [state.queue.buffer index])
      (position + 1) := by
  have member := List.mem_of_getElem? found
  have bounded : handle.isUnbounded = false := by
    simp [Handle.isUnbounded, stage]
  have live : handle.isLive = true := by
    simp [Handle.isLive, stage]
  have accepted : position < (state.pushed.map some).length := by
    rw [call.contents.count]
    exact Nat.lt_of_lt_of_le unfinished
      (phase.bounded_positions member bounded).2
  have atPosition := List.getElem?_eq_getElem accepted
  have stored :=
    call.contents.of_live window member live taking.begun atPosition
  refine ⟨Nat.le_succ_of_le taking.begun, unfinished, ?_⟩
  rw [tasksUpTo, slice_concat taking.begun atPosition, taking.shape,
    isIndex, stored, tasksUpTo]

/-- `to_vec` copies the next task of the range. -/
theorem copy
    (invariant : HolderInvariant N needsDrop state)
    (call : CallInvariant N state)
    (phase : PhaseInvariant N state.queue)
    (window : state.queue.LiveInWindow N)
    {batch index : Nat}
    {range : CounterRange}
    {todo : List Nat}
    (held : state.holders batch = .copying range (index :: todo)) :
    HolderInvariant N needsDrop
      ((state.take batch index).setHolder batch
        (.copying range todo)) := by
  apply invariant.of_holder
  case begun =>
    rw [held]
    intro none
    cases none
  case queue => rfl
  case holders =>
    intro other differs
    exact Function.update_of_ne differs _ _
  case taken =>
    intro other differs
    exact Function.update_of_ne differs _ _
  case pushed => rfl
  case holds =>
    intro handle found holding
    rw [held] at holding
    obtain ⟨stage, position, taking, indices⟩ := holding
    have unfinished : position < handle.last := by
      by_contra atEnd
      rw [CircularBuffer.window_eq_nil_iff.mpr
        (Nat.le_of_not_lt atEnd)] at indices
      cases indices
    rw [CircularBuffer.window_cons unfinished] at indices
    obtain ⟨isIndex, isRest⟩ := List.cons_eq_cons.mp indices
    have next := take call phase window found stage taking unfinished isIndex
    change HolderAt N needsDrop state.pushed handle
      (Function.update state.taken batch _ batch)
      (Function.update state.holders batch _ batch)
    rw [Function.update_self, Function.update_self]
    exact ⟨stage, position + 1, next, isRest⟩

/-- An iterator or a destructor visits the next cell of the range. -/
theorem visit
    (invariant : HolderInvariant N needsDrop state)
    (call : CallInvariant N state)
    (phase : PhaseInvariant N state.queue)
    (window : state.queue.LiveInWindow N)
    {batch : Nat}
    {iter : BufferIter}
    {hold : BufferIter → Holder}
    (held : state.holders batch = hold iter)
    (holds : hold = .iterating ∨ hold = .dropping)
    (more : iter.current < iter.range.stop) :
    HolderInvariant N needsDrop
      (RangeTasks.visit N state batch iter hold) := by
  apply invariant.of_holder
  case begun =>
    rw [held]
    rcases holds with isIterating | isDropping
    · subst isIterating
      intro none
      cases none
    · subst isDropping
      intro none
      cases none
  case queue => rfl
  case holders =>
    intro other differs
    exact Function.update_of_ne differs _ _
  case taken =>
    intro other differs
    exact Function.update_of_ne differs _ _
  case pushed => rfl
  case holds =>
    intro handle found holding
    have counting :
        ∃ position,
          TakenUpTo state.pushed handle (state.taken batch) position ∧
            CountsTo handle iter position := by
      rw [held] at holding
      rcases holds with isIterating | isDropping
      · subst isIterating
        exact holding
      · subst isDropping
        exact holding
    obtain ⟨position, taking, counts⟩ := counting
    obtain ⟨unfinished, isIndex, next⟩ :=
      counts.next phase window (List.mem_of_getElem? found) taking.begun
        more
    have taken :=
      take call phase window found counts.stage taking unfinished isIndex
    change HolderAt N needsDrop state.pushed handle
      (Function.update state.taken batch _ batch)
      (Function.update state.holders batch _ batch)
    rw [Function.update_self, Function.update_self]
    rcases holds with isIterating | isDropping
    · subst isIterating
      exact ⟨position + 1, taken, next⟩
    · subst isDropping
      exact ⟨position + 1, taken, next⟩

/-- Dropping an iterator starts its destructor where it stands. -/
theorem stop
    (invariant : HolderInvariant N needsDrop state)
    {batch : Nat}
    {iter : BufferIter}
    (held : state.holders batch = .iterating iter) :
    HolderInvariant N needsDrop
      (state.setHolder batch (.dropping iter)) := by
  apply invariant.of_holder
  case begun =>
    rw [held]
    intro none
    cases none
  case queue => rfl
  case holders =>
    intro other differs
    exact Function.update_of_ne differs _ _
  case taken => exact fun _ _ => rfl
  case pushed => rfl
  case holds =>
    intro handle _ holding
    rw [held] at holding
    change HolderAt N needsDrop state.pushed handle (state.taken batch)
      (Function.update state.holders batch _ batch)
    rw [Function.update_self]
    exact holding

/-- Releasing a range settles what was taken from it. -/
theorem release
    (invariant : HolderInvariant N needsDrop state)
    {batch : Nat}
    {copied : Bool}
    (moved :
      Queue.Move N state.queue (.deoccupyRegion batch) after.queue)
    (settled :
      ∀ handle,
        state.queue.handles[batch]? = some handle →
        HolderAt N needsDrop state.pushed handle (state.taken batch)
          (state.holders batch) →
        Outcome width needsDrop state.pushed handle (state.taken batch)
          copied)
    (holders :
      after.holders =
        Function.update state.holders batch (.releasing copied))
    (taken : after.taken = state.taken)
    (pushed : after.pushed = state.pushed) :
    HolderInvariant N needsDrop after := by
  generalize queue : after.queue = queueAfter at moved
  cases moved with
  | @deoccupyRegion _ handle range found wasBounded =>
      have outcome :=
        settled handle found (invariant.held batch handle found)
      obtain ⟨stage, handles, released⟩ :=
        deoccupyRegion_stage N state.queue batch handle range
      apply invariant.of_batch found
      case handles =>
        rw [queue]
        exact handles
      case holders =>
        intro other differs
        rw [holders, Function.update_of_ne differs]
      case taken =>
        intro other _
        rw [taken]
      case pushed => exact pushed
      case holds =>
        rw [holders, Function.update_self, taken]
        exact ⟨released, outcome.of_stage stage⟩

/-- `to_vec` has taken every task when it releases the range. -/
theorem settled_copied
    {batch : Nat}
    {range : CounterRange}
    (held : state.holders batch = .copying range [])
    (handle : Handle)
    (holding :
      HolderAt N needsDrop state.pushed handle (state.taken batch)
        (state.holders batch)) :
    Outcome width needsDrop state.pushed handle (state.taken batch)
      true := by
  rw [held] at holding
  obtain ⟨_, position, taking, indices⟩ := holding
  have atEnd : position = handle.last :=
    Nat.le_antisymm taking.upTo
      (CircularBuffer.window_eq_nil_iff.mp indices.symm)
  constructor
  case some_ => exact ⟨position, taking⟩
  case copied_ =>
    intro _
    rw [taking.shape, atEnd, tasksOf]
  case wrapped =>
    intro dropped
    cases dropped
  case dropped =>
    intro dropped
    cases dropped

/-- A destructor has dropped every task it can when it releases the range. -/
theorem settled_dropped
    (phase : PhaseInvariant N state.queue)
    (window : state.queue.LiveInWindow N)
    {batch : Nat}
    {iter : BufferIter}
    (held : state.holders batch = .dropping iter)
    (emptied : hasMore needsDrop iter = false)
    (handle : Handle)
    (found : state.queue.handles[batch]? = some handle)
    (holding :
      HolderAt N needsDrop state.pushed handle (state.taken batch)
        (state.holders batch)) :
    Outcome width needsDrop state.pushed handle (state.taken batch)
      false := by
  rw [held] at holding
  obtain ⟨position, taking, counts⟩ := holding
  obtain ⟨nothing, everything⟩ :=
    counts.atEnd phase window (List.mem_of_getElem? found) taking.begun
      taking.upTo
  constructor
  case some_ => exact ⟨position, taking⟩
  case copied_ =>
    intro copied
    cases copied
  case wrapped =>
    intro _ wraps
    rw [taking.shape, nothing wraps]
    simp [tasksUpTo, slice]
  case dropped =>
    intro _ needed forward
    have exhausted : ¬ iter.current < iter.range.stop := by
      simpa [hasMore, needed] using emptied
    rw [taking.shape, everything exhausted forward, tasksOf]

/-- The wake loop changes nothing but the range's stage. -/
theorem steal
    (invariant : HolderInvariant N needsDrop state)
    {batch : Nat}
    {copied retry : Bool}
    {queue : Queue.State (Option Task) Nat}
    (held : state.holders batch = .releasing copied)
    (moved : Queue.Move N state.queue (.steal batch retry) queue) :
    HolderInvariant N needsDrop { state with queue := queue } := by
  cases moved with
  | retry found stage =>
      exact invariant
  | @steal _ batchLimit handle found wasDraining =>
      have holding := invariant.held batch handle found
      rw [held] at holding
      obtain ⟨stage, handles, released⟩ :=
        steal_handles state.queue batch handle batchLimit
      apply invariant.of_batch found handles
      case holders => exact fun _ _ => rfl
      case taken => exact fun _ _ => rfl
      case pushed => rfl
      case holds =>
        change HolderAt N needsDrop state.pushed _ (state.taken batch)
          (state.holders batch)
        rw [held]
        exact ⟨released, holding.2.of_stage stage⟩

/-- `to_vec` or a destructor returns. -/
theorem complete
    (invariant : HolderInvariant N needsDrop state)
    {batch : Nat}
    {copied : Bool}
    (held : state.holders batch = .releasing copied)
    (released : state.hasReleased batch = true) :
    HolderInvariant N needsDrop
      (state.setHolder batch (.finished copied)) := by
  apply invariant.of_holder
  case begun =>
    rw [held]
    intro none
    cases none
  case queue => rfl
  case holders =>
    intro other differs
    exact Function.update_of_ne differs _ _
  case taken => exact fun _ _ => rfl
  case pushed => rfl
  case holds =>
    intro handle found holding
    have stage : handle.stage = .released := by
      simpa [State.hasReleased, found] using released
    rw [held] at holding
    change HolderAt N needsDrop state.pushed handle (state.taken batch)
      (Function.update state.holders batch _ batch)
    rw [Function.update_self]
    exact ⟨stage, holding.2⟩

/-- Every step keeps the holders. -/
theorem move
    {action : Action Task}
    (invariant : HolderInvariant N needsDrop state)
    (call : CallInvariant N state)
    (phase : PhaseInvariant N state.queue)
    (phaseAfter : PhaseInvariant N after.queue)
    (window : state.queue.LiveInWindow N)
    (moved : Move N needsDrop state action after) :
    HolderInvariant N needsDrop after := by
  have count : state.pushed.length = state.queue.accepted := by
    rw [← call.contents.count, List.length_map]
  cases moved with
  | @push task queue idle moved =>
      have handles : queue.handles = state.queue.handles := by
        cases moved
        rfl
      exact invariant.of_push phase count (.inl handles)
        (List.append_nil _).symm rfl rfl
  | owner moved =>
      have handles := moved.handles
      refine invariant.of_push phase count ?_ rfl rfl rfl
      exact handles.imp_right fun ⟨_, baseSlot, _, added⟩ =>
        ⟨baseSlot, _, added⟩
  | @finish waker queue moved =>
      have handles : queue.handles = state.queue.handles := by
        cases moved <;> rfl
      exact invariant.of_push phase count (.inl handles)
        (List.append_nil _).symm rfl rfl
  | bound on held returned moved found stage holds =>
      exact invariant.bound phaseAfter held moved found stage holds rfl
        rfl rfl
  | rehold on held holds =>
      exact invariant.rehold phase window held holds
  | copy held =>
      exact invariant.copy call phase window held
  | visit on held holds more =>
      exact invariant.visit call phase window held holds more
  | exhausted held atEnd =>
      exact invariant
  | stop held =>
      exact invariant.stop held
  | releaseCopied held moved =>
      exact invariant.release moved
        (fun handle _ holding => settled_copied held handle holding) rfl
        rfl rfl
  | releaseDropped held emptied moved =>
      exact invariant.release moved
        (settled_dropped phase window held emptied) rfl rfl rfl
  | steal held moved =>
      exact invariant.steal held moved
  | complete held released =>
      exact invariant.complete held released

end HolderInvariant

/-- In every run of a safe buffer the holders take the ranges' own tasks. -/
theorem Reachable.holderInvariant
    {N : BufferSize width}
    {needsDrop : Bool}
    {state : State Task}
    (safe : N.IsSafe)
    (reachable : Reachable N needsDrop state) :
    HolderInvariant N needsDrop state := by
  induction reachable with
  | start =>
      exact .initial
  | @next before after action earlier _ taken inductionHypothesis =>
      have queue := Reachable.queue earlier
      have reachableAfter : Reachable N needsDrop after :=
        earlier.next trivial taken
      exact inductionHypothesis.move (Reachable.callInvariant earlier)
        queue.phaseInvariant
        (Reachable.queue reachableAfter).phaseInvariant
        (queue.liveInWindow safe) (step_move taken)

end StackQueue.RangeTasks
