import StackQueue.QueueContents
import StackQueue.QueuePartition

namespace StackQueue.RangeConsumers

open Queue

/-!
# The ways to consume a range of buffer cells

`to_vec` cuts a range into two slices of the buffer; `BufferIter` and the
destructors count raw counters up from the start of the range to its end.  The
counters are those of the slots, truncated to the upper half of a word, so a
range in which the index counter wraps has a start that is not below its end.
-/

/-- The cells of a buffer, and what becomes of their tasks. -/
structure Memory (Task : Type) where
  buffer : Nat → Task
  /-- The cells whose task was moved out or dropped, in this order. -/
  consumed : List Nat
  /-- The indices `deoccupy_region` was called with. -/
  released : List Nat

/-- `BufferIter`. -/
structure BufferIter where
  current : Nat
  range : CounterRange
  deriving Repr, DecidableEq

variable {width : PointerWidth} {Task : Type}

namespace Memory

/-- `assume_init_read` or `assume_init_drop` of one cell. -/
def consume (memory : Memory Task) (index : Nat) : Memory Task :=
  { memory with consumed := memory.consumed ++ [index] }

def deoccupyRegion (memory : Memory Task) (index : Nat) : Memory Task :=
  { memory with released := memory.released ++ [index] }

end Memory

/-- `set_bounds` and `set_assignment_bounds`, with the slot that the `fetch_xor`
found. -/
def setBounds
    (width : PointerWidth)
    (baseSlot endSlot : Nat) :
    CounterRange :=
  ⟨baseSlot >>> width.indexShift, endSlot >>> width.indexShift⟩

/-- `BoundedRange::deoccupy_buffer` and `BufferIter::deoccupy_buffer`. -/
def deoccupyBuffer
    (N : BufferSize width)
    (range : CounterRange)
    (memory : Memory Task) :
    Memory Task :=
  memory.deoccupyRegion (range.start &&& (N.size - 1))

/-- `BoundedRange::to_vec`. -/
def toVec
    (N : BufferSize width)
    (range : CounterRange)
    (memory : Memory Task) :
    List Task × Memory Task :=
  let items := asSlices N range
  (items.1.map memory.buffer ++ items.2.map memory.buffer,
    deoccupyBuffer N range
      ((items.1 ++ items.2).foldl Memory.consume memory))

/-- The cells that `for index in range` visits. -/
def countUp (N : BufferSize width) (range : CounterRange) : List Nat :=
  (List.range' range.start (range.stop - range.start)).map
    (· &&& (N.size - 1))

/-- `BoundedRange::drop`. -/
def dropBounded
    (N : BufferSize width)
    (needsDrop : Bool)
    (range : CounterRange)
    (memory : Memory Task) :
    Memory Task :=
  deoccupyBuffer N range
    (if needsDrop then
      (countUp N range).foldl Memory.consume memory
    else
      memory)

/-- `UnboundedRange::drop`. -/
def dropUnbounded
    (N : BufferSize width)
    (needsDrop : Bool)
    (baseSlot endSlot : Nat)
    (memory : Memory Task) :
    Memory Task :=
  let taskRange := setBounds width baseSlot endSlot
  let startIndex := taskRange.start &&& (N.size - 1)
  let emptied :=
    if needsDrop then
      (countUp N taskRange).foldl Memory.consume memory
    else
      memory
  emptied.deoccupyRegion startIndex

/-- `BoundedRange::into_iter`. -/
def intoIter (range : CounterRange) : BufferIter :=
  ⟨range.start, range⟩

namespace BufferIter

/-- `BufferIter::next`. -/
def next
    (N : BufferSize width)
    (iter : BufferIter)
    (memory : Memory Task) :
    Option Task × BufferIter × Memory Task :=
  if iter.current < iter.range.stop then
    let index := iter.current &&& (N.size - 1)
    (some (memory.buffer index),
      { iter with current := iter.current + 1 },
      memory.consume index)
  else
    (none, iter, memory)

/-- Take items until there are `count` of them or no more. -/
def takeItems
    (N : BufferSize width) :
    Nat → BufferIter → Memory Task →
      List Task × BufferIter × Memory Task
  | 0, iter, memory => ([], iter, memory)
  | count + 1, iter, memory =>
      match iter.next N memory with
      | (some task, iter, memory) =>
          let rest := takeItems N count iter memory
          (task :: rest.1, rest.2)
      | (none, iter, memory) => ([], iter, memory)

/-- An iterator that is not at its end has an item. -/
theorem next_of_lt
    {N : BufferSize width}
    {iter : BufferIter}
    (memory : Memory Task)
    (more : iter.current < iter.range.stop) :
    iter.next N memory =
      (some (memory.buffer (iter.current &&& (N.size - 1))),
        { iter with current := iter.current + 1 },
        memory.consume (iter.current &&& (N.size - 1))) := by
  rw [next, if_pos more]

theorem next_of_not_lt
    {N : BufferSize width}
    {iter : BufferIter}
    (memory : Memory Task)
    (atEnd : ¬ iter.current < iter.range.stop) :
    iter.next N memory = (none, iter, memory) := by
  rw [next, if_neg atEnd]

/-- `while self.next().is_some() {}`. -/
def drain
    (N : BufferSize width)
    (iter : BufferIter)
    (memory : Memory Task) :
    Memory Task :=
  if (iter.next N memory).1.isSome then
    drain N (iter.next N memory).2.1 (iter.next N memory).2.2
  else
    (iter.next N memory).2.2
termination_by iter.range.stop - iter.current
decreasing_by
  rename_i isSome
  by_cases more : iter.current < iter.range.stop
  · rw [next_of_lt memory more]
    change iter.range.stop - (iter.current + 1) < _
    omega
  · rw [next_of_not_lt memory more] at isSome
    cases isSome

/-- `BufferIter::drop`. -/
def drop
    (N : BufferSize width)
    (needsDrop : Bool)
    (iter : BufferIter)
    (memory : Memory Task) :
    Memory Task :=
  deoccupyBuffer N iter.range
    (if needsDrop then drain N iter memory else memory)

end BufferIter

/-! ## The cells each of them visits -/

theorem Memory.foldl_consume
    (memory : Memory Task)
    (indices : List Nat) :
    indices.foldl Memory.consume memory =
      { memory with consumed := memory.consumed ++ indices } := by
  induction indices generalizing memory with
  | nil =>
      simp
  | cons index rest inductionHypothesis =>
      rw [List.foldl_cons, inductionHypothesis, Memory.consume,
        List.append_assoc]
      rfl

namespace BufferIter

/-- The cells of the next `count` counters. -/
def upcoming
    (N : BufferSize width)
    (iter : BufferIter)
    (count : Nat) :
    List Nat :=
  (List.range' iter.current count).map (· &&& (N.size - 1))

theorem upcoming_succ
    (N : BufferSize width)
    (iter : BufferIter)
    (count : Nat) :
    iter.upcoming N (count + 1) =
      (iter.current &&& (N.size - 1)) ::
        upcoming N { iter with current := iter.current + 1 } count := by
  rw [upcoming, List.range'_succ, List.map_cons, upcoming]

/-- Draining consumes the cells of all counters up to the end. -/
theorem drain_eq
    (N : BufferSize width)
    (iter : BufferIter)
    (memory : Memory Task) :
    drain N iter memory =
      (iter.upcoming N (iter.range.stop - iter.current)).foldl
        Memory.consume memory := by
  induction left : iter.range.stop - iter.current
    generalizing iter memory with
  | zero =>
      have atEnd : ¬ iter.current < iter.range.stop := by omega
      rw [drain, next_of_not_lt memory atEnd]
      rfl
  | succ count inductionHypothesis =>
      have more : iter.current < iter.range.stop := by omega
      have fewer :
          iter.range.stop - (iter.current + 1) = count := by
        omega
      rw [drain, next_of_lt memory more, upcoming_succ, List.foldl_cons]
      exact inductionHypothesis
        { iter with current := iter.current + 1 } _ fewer

/-- Taking items moves out the cells of as many counters as there are. -/
theorem takeItems_eq
    (N : BufferSize width)
    (count : Nat)
    (iter : BufferIter)
    (memory : Memory Task) :
    takeItems N count iter memory =
      ((iter.upcoming N
          (min count (iter.range.stop - iter.current))).map
            memory.buffer,
        { iter with
          current :=
            iter.current +
              min count (iter.range.stop - iter.current) },
        (iter.upcoming N
          (min count (iter.range.stop - iter.current))).foldl
            Memory.consume memory) := by
  induction count generalizing iter memory with
  | zero =>
      simp [takeItems, upcoming]
  | succ count inductionHypothesis =>
      by_cases more : iter.current < iter.range.stop
      · have split :
            min (count + 1) (iter.range.stop - iter.current) =
              min count (iter.range.stop - (iter.current + 1)) + 1 := by
          omega
        rw [takeItems, next_of_lt memory more, split, upcoming_succ]
        simp only [inductionHypothesis, List.map_cons, List.foldl_cons]
        rw [Nat.add_assoc, Nat.add_comm 1]
        rfl
      · have none :
            min (count + 1) (iter.range.stop - iter.current) = 0 := by
          omega
        rw [takeItems, next_of_not_lt memory more, none]
        simp [upcoming]

/-- The counters after those that were taken come next. -/
theorem upcoming_add
    (N : BufferSize width)
    (iter : BufferIter)
    (taken left : Nat) :
    iter.upcoming N (taken + left) =
      iter.upcoming N taken ++
        upcoming N { iter with current := iter.current + taken } left := by
  rw [upcoming, ← List.range'_append_1, List.map_append]
  rfl

/-- What is taken and what the destructor finds are the range counted up. -/
theorem consumed_drop_takeItems
    (N : BufferSize width)
    (count : Nat)
    (range : CounterRange)
    (memory : Memory Task) :
    (((intoIter range).takeItems N count memory).2.1.drop N true
        ((intoIter range).takeItems N count memory).2.2).consumed =
      memory.consumed ++ countUp N range := by
  have all :
      range.stop - range.start =
        min count (range.stop - range.start) +
          (range.stop -
            (range.start + min count (range.stop - range.start))) := by
    omega
  have split :=
    upcoming_add N (intoIter range)
      (min count (range.stop - range.start))
      (range.stop -
        (range.start + min count (range.stop - range.start)))
  rw [← all] at split
  rw [takeItems_eq, drop, if_pos rfl, drain_eq, Memory.foldl_consume,
    Memory.foldl_consume]
  change (_ ++ _) ++ _ = _ ++ upcoming N (intoIter range) _
  rw [split, List.append_assoc]
  rfl

end BufferIter

/-! ## Agreement -/

/-- All ways of consuming a range agree with what `to_vec` describes. -/
structure Agree
    (N : BufferSize width)
    (baseSlot endSlot : Nat)
    (memory : Memory Task) : Prop where
  /-- Any number of items taken from the iterator are the first ones. -/
  iterates :
    ∀ count,
      ((intoIter (setBounds width baseSlot endSlot)).takeItems N count
          memory).1 =
        (toVec N (setBounds width baseSlot endSlot) memory).1.take count
  /-- With the items taken, its destructor consumes each task once. -/
  dropsIter :
    ∀ count,
      (((intoIter (setBounds width baseSlot endSlot)).takeItems N count
            memory).2.1.drop N true
          ((intoIter (setBounds width baseSlot endSlot)).takeItems N count
            memory).2.2).consumed =
        (toVec N (setBounds width baseSlot endSlot) memory).2.consumed
  dropsBounded :
    (dropBounded N true (setBounds width baseSlot endSlot)
        memory).consumed =
      (toVec N (setBounds width baseSlot endSlot) memory).2.consumed
  dropsUnbounded :
    (dropUnbounded N true baseSlot endSlot memory).consumed =
      (toVec N (setBounds width baseSlot endSlot) memory).2.consumed

/-- `to_vec` reads and consumes the cells of the two slices. -/
theorem toVec_eq
    (N : BufferSize width)
    (range : CounterRange)
    (memory : Memory Task) :
    (toVec N range memory).1 = (taskIndices N range).map memory.buffer ∧
      (toVec N range memory).2.consumed =
        memory.consumed ++ taskIndices N range := by
  constructor
  · rw [toVec, taskIndices, List.map_append]
  · rw [toVec, Memory.foldl_consume]
    rfl

/-- The slices of a range are the cells of its positions. -/
theorem taskIndices_setBounds
    (N : BufferSize width)
    {first count : Nat}
    (nonempty : 0 < count)
    (near : count ≤ N.size)
    (basePhase endPhase : Bool) :
    taskIndices N
        (setBounds width (encodeSlot width first basePhase)
          (encodeSlot width (first + count) endPhase)) =
      CircularBuffer.window N.size first (first + count) := by
  rw [← CircularBuffer.slices_eq_window (by omega) (by omega)]
  simp only [setBounds, encodeSlot_shiftRight, taskIndices, asSlices,
    CircularBuffer.slices, N.and_size_sub_one, N.mod_counter_mod]

private theorem take_range' (start length count : Nat) :
    (List.range' start length).take count =
      List.range' start (min count length) := by
  rcases Nat.le_total count length with less | more
  · rw [List.take_range'_of_length_ge less, Nat.min_eq_left less]
  · rw [List.take_range'_of_length_le more, Nat.min_eq_right more]

/-- The ways agree when counting up visits the cells of the slices. -/
theorem agree_iff
    (N : BufferSize width)
    (baseSlot endSlot : Nat)
    (memory : Memory Task) :
    Agree N baseSlot endSlot memory ↔
      countUp N (setBounds width baseSlot endSlot) =
        taskIndices N (setBounds width baseSlot endSlot) := by
  obtain ⟨items, consumed⟩ :=
    toVec_eq N (setBounds width baseSlot endSlot) memory
  constructor
  · intro agree
    have dropped := agree.dropsBounded
    rw [consumed, dropBounded, if_pos rfl, Memory.foldl_consume]
      at dropped
    exact List.append_cancel_left dropped
  · intro same
    constructor
    case iterates =>
      intro count
      rw [items, ← same, BufferIter.takeItems_eq, countUp, List.map_map,
        ← List.map_take, take_range', ← List.map_map]
      rfl
    case dropsIter =>
      intro count
      rw [BufferIter.consumed_drop_takeItems, consumed, same]
    case dropsBounded =>
      rw [dropBounded, if_pos rfl, Memory.foldl_consume, consumed, same]
      rfl
    case dropsUnbounded =>
      rw [dropUnbounded, if_pos rfl, Memory.foldl_consume, consumed, same]
      rfl

/-- A range in which the counter wraps counts up to nothing. -/
theorem countUp_of_wrap
    (N : BufferSize width)
    {range : CounterRange}
    (wraps : range.stop ≤ range.start) :
    countUp N range = [] := by
  rw [countUp, Nat.sub_eq_zero_of_le wraps]
  rfl

/-- While the counter does not wrap, counting up visits the range. -/
theorem countUp_of_no_wrap
    (N : BufferSize width)
    {first count : Nat}
    (noWrap :
      first % 2 ^ width.indexShift + count < 2 ^ width.indexShift)
    (basePhase endPhase : Bool) :
    countUp N
        (setBounds width (encodeSlot width first basePhase)
          (encodeSlot width (first + count) endPhase)) =
      CircularBuffer.window N.size first (first + count) := by
  have stop :
      (first + count) % 2 ^ width.indexShift =
        first % 2 ^ width.indexShift + count := by
    rw [← Nat.mod_add_mod, Nat.mod_eq_of_lt noWrap]
  have sameIndex := N.mod_counter_mod first
  rw [← CircularBuffer.window_of_mod_eq count sameIndex, countUp,
    CircularBuffer.window, Nat.add_sub_cancel_left]
  simp only [setBounds, encodeSlot_shiftRight, stop,
    Nat.add_sub_cancel_left, N.and_size_sub_one]

/-- When it wraps, the end of the range is not above its start. -/
theorem stop_le_start_of_wrap
    (N : BufferSize width)
    {first count : Nat}
    (near : count ≤ N.size)
    (wraps :
      2 ^ width.indexShift ≤ first % 2 ^ width.indexShift + count) :
    (first + count) % 2 ^ width.indexShift ≤
      first % 2 ^ width.indexShift := by
  have positive := Nat.two_pow_pos width.indexShift
  have start := Nat.mod_lt first positive
  have small : N.size ≤ 2 ^ width.indexShift :=
    Nat.le_of_dvd positive N.size_dvd_counter
  rw [← Nat.mod_add_mod, Nat.mod_eq_sub_mod wraps,
    Nat.mod_eq_of_lt (by omega)]
  omega

/--
What a range of at most one buffer describes, and when the other ways of
consuming it agree.
-/
theorem consumers_agree_of_span
    (N : BufferSize width)
    (memory : Memory Task)
    {first last : Nat}
    (nonempty : first < last)
    (near : last ≤ first + N.size)
    (basePhase endPhase : Bool) :
    (toVec N
          (setBounds width (encodeSlot width first basePhase)
            (encodeSlot width last endPhase)) memory).1 =
        (CircularBuffer.window N.size first last).map memory.buffer ∧
      (toVec N
          (setBounds width (encodeSlot width first basePhase)
            (encodeSlot width last endPhase)) memory).2.consumed =
        memory.consumed ++ CircularBuffer.window N.size first last ∧
      (CircularBuffer.window N.size first last).Nodup ∧
      (Agree N (encodeSlot width first basePhase)
          (encodeSlot width last endPhase) memory ↔
        first % 2 ^ width.indexShift + (last - first) <
          2 ^ width.indexShift) := by
  obtain ⟨count, rfl⟩ := Nat.exists_eq_add_of_le (Nat.le_of_lt nonempty)
  rw [Nat.add_sub_cancel_left]
  have some : 0 < count := by omega
  have few : count ≤ N.size := by omega
  have slices :
      taskIndices N
          (setBounds width (encodeSlot width first basePhase)
            (encodeSlot width (first + count) endPhase)) =
        CircularBuffer.window N.size first (first + count) :=
    taskIndices_setBounds N some few basePhase endPhase
  obtain ⟨items, consumed⟩ :=
    toVec_eq N
      (setBounds width (encodeSlot width first basePhase)
        (encodeSlot width (first + count) endPhase)) memory
  rw [slices] at items consumed
  refine ⟨items, consumed, CircularBuffer.window_nodup (by omega), ?_⟩
  rw [agree_iff, slices]
  constructor
  · intro visits
    by_contra wraps
    rw [countUp_of_wrap N] at visits
    · have ends := CircularBuffer.window_eq_nil_iff.mp visits.symm
      omega
    · simp only [setBounds, encodeSlot_shiftRight]
      exact stop_le_start_of_wrap N few (Nat.le_of_not_lt wraps)
  · intro noWrap
    exact countUp_of_no_wrap N noWrap basePhase endPhase

/--
A range of `count` tasks from any position on: `to_vec` describes its tasks in
order, each cell once, and the other ways of consuming it agree exactly if the
index counter does not wrap to zero by the end of the range.
-/
theorem consumers_agree_iff_no_wrap
    (N : BufferSize width)
    (memory : Memory Task)
    (first count : Nat)
    (nonempty : 0 < count)
    (near : count ≤ N.size)
    (basePhase endPhase : Bool) :
    (toVec N
          (setBounds width (encodeSlot width first basePhase)
            (encodeSlot width (first + count) endPhase)) memory).1 =
        (CircularBuffer.window N.size first (first + count)).map
          memory.buffer ∧
      (toVec N
          (setBounds width (encodeSlot width first basePhase)
            (encodeSlot width (first + count) endPhase))
          memory).2.consumed =
        memory.consumed ++
          CircularBuffer.window N.size first (first + count) ∧
      (CircularBuffer.window N.size first (first + count)).Nodup ∧
      (Agree N (encodeSlot width first basePhase)
          (encodeSlot width (first + count) endPhase) memory ↔
        first % 2 ^ width.indexShift + count < 2 ^ width.indexShift) := by
  have spans :=
    consumers_agree_of_span N memory
      (Nat.lt_add_of_pos_right nonempty) (Nat.add_le_add_left near first)
      basePhase endPhase
  rw [Nat.add_sub_cancel_left] at spans
  exact spans

/-- A bounded range of a run is cut from the slots of its positions. -/
theorem range_of_reachable
    {Cell Waker : Type}
    {N : BufferSize width}
    {buffer : Nat → Cell}
    {state : Queue.State Cell Waker}
    (reachable : Queue.Reachable N buffer state)
    {handle : Handle}
    (member : handle ∈ state.handles)
    {range : CounterRange}
    (bounded : handle.stage = .bounded range)
    (basePhase endPhase : Bool) :
    range =
        setBounds width (encodeSlot width handle.first basePhase)
          (encodeSlot width handle.last endPhase) ∧
      handle.first < handle.last := by
  have phase := reachable.phaseInvariant
  have notUnbounded : handle.isUnbounded = false := by
    simp [Handle.isUnbounded, bounded]
  refine ⟨?_, (phase.bounded_positions member notUnbounded).1⟩
  rw [phase.counters handle member range bounded, setBounds,
    encodeSlot_shiftRight, encodeSlot_shiftRight]

/--
The same of the bounded ranges of the runs of a safe buffer: they describe the
tasks of their positions, and can be consumed in any way unless the index
counter wraps to zero by their end.
-/
theorem consumers_agree_of_reachable
    {Cell Waker : Type}
    {N : BufferSize width}
    (safe : N.IsSafe)
    {buffer : Nat → Cell}
    {state : Queue.State Cell Waker}
    (reachable : Queue.Reachable N buffer state)
    {handle : Handle}
    (member : handle ∈ state.handles)
    {range : CounterRange}
    (bounded : handle.stage = .bounded range)
    (memory : Memory Task)
    (basePhase endPhase : Bool) :
    (toVec N range memory).1 =
        (CircularBuffer.window N.size handle.first handle.last).map
          memory.buffer ∧
      (toVec N range memory).2.consumed =
        memory.consumed ++
          CircularBuffer.window N.size handle.first handle.last ∧
      (CircularBuffer.window N.size handle.first handle.last).Nodup ∧
      (Agree N (encodeSlot width handle.first basePhase)
          (encodeSlot width handle.last endPhase) memory ↔
        handle.first % 2 ^ width.indexShift +
            (handle.last - handle.first) <
          2 ^ width.indexShift) := by
  have phase := reachable.phaseInvariant
  have window := Queue.Reachable.liveInWindow safe reachable
  have live : handle.isLive = true := by
    simp [Handle.isLive, bounded]
  have notUnbounded : handle.isUnbounded = false := by
    simp [Handle.isUnbounded, bounded]
  obtain ⟨cut, nonempty⟩ :=
    range_of_reachable reachable member bounded basePhase endPhase
  have near : handle.last ≤ handle.first + N.size :=
    Nat.le_trans (phase.bounded_positions member notUnbounded).2
      (window.inWindow member live (Nat.le_refl _)).1
  rw [cut]
  exact consumers_agree_of_span N memory nonempty near basePhase endPhase

/-- Cells that hold their own indices. -/
def numbered : Memory Nat :=
  ⟨id, [], []⟩

/-- A range of eight tasks around the end of the buffer. -/
theorem consumers_agree_iff_no_wrap_around :
    (toVec smallestBuffer
          (setBounds .w64 (encodeSlot .w64 60 true)
            (encodeSlot .w64 (60 + 8) true)) numbered).1 =
        (CircularBuffer.window smallestBuffer.size 60 (60 + 8)).map
          numbered.buffer ∧
      (toVec smallestBuffer
          (setBounds .w64 (encodeSlot .w64 60 true)
            (encodeSlot .w64 (60 + 8) true)) numbered).2.consumed =
        numbered.consumed ++
          CircularBuffer.window smallestBuffer.size 60 (60 + 8) ∧
      (CircularBuffer.window smallestBuffer.size 60 (60 + 8)).Nodup ∧
      (Agree smallestBuffer (encodeSlot .w64 60 true)
          (encodeSlot .w64 (60 + 8) true) numbered ↔
        60 % 2 ^ PointerWidth.indexShift .w64 + 8 <
          2 ^ PointerWidth.indexShift .w64) :=
  consumers_agree_iff_no_wrap smallestBuffer numbered 60 8 (by decide)
    (by decide) true true

/-- The task that takes the last value of the index counter is lost. -/
theorem wrapping_range_lost :
    (toVec smallestBuffer
          (setBounds .w64 (encodeSlot .w64 4294967295 true)
            (encodeSlot .w64 (4294967295 + 1) true)) numbered).1 =
        [63] ∧
      ((intoIter
          (setBounds .w64 (encodeSlot .w64 4294967295 true)
            (encodeSlot .w64 (4294967295 + 1) true))).takeItems
              smallestBuffer 1 numbered).1 =
        [] ∧
      (dropUnbounded smallestBuffer true (encodeSlot .w64 4294967295 true)
          (encodeSlot .w64 (4294967295 + 1) true) numbered).consumed =
        [] ∧
      ¬ Agree smallestBuffer (encodeSlot .w64 4294967295 true)
        (encodeSlot .w64 (4294967295 + 1) true) numbered := by
  have items :
      (toVec smallestBuffer
          (setBounds .w64 (encodeSlot .w64 4294967295 true)
            (encodeSlot .w64 (4294967295 + 1) true)) numbered).1 =
        [63] := by
    decide +kernel
  have none :
      ((intoIter
          (setBounds .w64 (encodeSlot .w64 4294967295 true)
            (encodeSlot .w64 (4294967295 + 1) true))).takeItems
              smallestBuffer 1 numbered).1 =
        [] := by
    decide +kernel
  refine ⟨items, none, by decide +kernel, ?_⟩
  intro agree
  have first := agree.iterates 1
  rw [items, none] at first
  cases first

end StackQueue.RangeConsumers
