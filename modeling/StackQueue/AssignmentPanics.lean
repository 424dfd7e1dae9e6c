import StackQueue.AssignedTasks

namespace StackQueue.AssignedTasks

open Queue RangeConsumers

/-!
# Panics while an assignment is processed

The destructor that runs when `op` or the value iterator unwinds does not know
how far processing got: it takes every task of the range out of its cell, those
that are gone already included.
-/

variable {width : PointerWidth} {Task Value : Type}

/-- Code of the caller that may panic. -/
inductive Source (Task Value : Type) where
  /-- The `op` given to `map`; `none` is a panic. -/
  | op (op : Nat → Option Task → Option Value)
  /-- The iterator given to `resolve_with_iter`. -/
  | iter (iter : Nat → Next Value)

namespace Source

/-- Process an assignment with the caller's code. -/
def run
    (N : BufferSize width)
    (needsDrop : Bool)
    (range : CounterRange)
    (memory : Memory Task Value) :
    Source Task Value → Outcome × Memory Task Value
  | .op apply => AssignedTasks.map N needsDrop apply range memory
  | .iter next => resolveWithIter N needsDrop next range memory

def isIter : Source Task Value → Bool
  | .op _ => false
  | .iter _ => true

/-- The caller's code panics in its call for the task at position `k`. -/
def PanicsAt (tasks : List (Option Task)) (k : Nat) :
    Source Task Value → Prop
  | .op apply =>
      (∀ (i : Nat) (task : Option Task),
        i < k →
        tasks[i]? = some task →
        ∃ value, apply i task = some value) ∧
        ∀ task, tasks[k]? = some task → apply k task = none
  | .iter next =>
      (∀ i, i < k → ∃ value, next i = .item value) ∧
        next k = .panicked

end Source

/--
Each task was taken out of its cell once and handed to `op` or dropped, the
first `k` receivers were resolved, and the region was released once.
-/
structure ConsumedOnce
    (cells : List Nat)
    (index k : Nat)
    (before after : Memory Task Value) : Prop where
  taken : after.taken.Perm cells
  consumed : after.consumed.Perm (cells.map before.tasks)
  resolved : after.resolved.map Prod.fst = cells.take k
  released : after.released = [index]

/-- After a panic at `k` the destructor takes all tasks once more. -/
structure Unwound
    (cells : List Nat)
    (index k : Nat)
    (source : Source Task Value)
    (before : Memory Task Value)
    (result : Outcome × Memory Task Value) : Prop where
  outcome : result.1 = .unwound
  taken :
    result.2.taken =
      (if source.isIter then cells.take k else cells.take (k + 1)) ++ cells
  consumed :
    source.isIter = true →
    k = 0 →
    result.2.consumed = cells.map before.tasks
  resolved : result.2.resolved.map Prod.fst = cells.take k
  released : result.2.released = [index]

namespace Unwound

variable
    {N : BufferSize width}
    {range : CounterRange}
    {memory processed : Memory Task Value}
    {k : Nat}

/-- The destructor's events come after those of the loop. -/
theorem of_loop
    (nodup : (taskIndices N range).Nodup)
    (clean : memory.events = [])
    {source : Source Task Value}
    {events : List (Event Task Value)}
    (grown : processed.events = memory.events ++ events)
    (taken :
      events.filterMap Event.taken? =
        if source.isIter then
          (taskIndices N range).take k
        else
          (taskIndices N range).take (k + 1))
    (untouched : source.isIter = true → k = 0 → processed = memory)
    (resolved :
      (events.filterMap Event.resolved?).map Prod.fst =
        (taskIndices N range).take k)
    (released : events.filterMap Event.released? = []) :
    Unwound (taskIndices N range) (range.start &&& (N.size - 1)) k source
      memory (.unwound, dropAssignment N true range processed) := by
  have all := dropAssignment_events N nodup processed
  rw [grown, clean, List.nil_append] at all
  obtain ⟨dropTaken, dropConsumed, dropResolved, dropReleased⟩ :=
    dropEvents_projections Value processed.tasks (taskIndices N range)
  constructor
  case outcome =>
    rfl
  case taken =>
    rw [Memory.taken, all, List.filterMap_append, List.filterMap_append,
      taken, dropTaken]
    exact congrArg _ (List.append_nil _)
  case consumed =>
    intro isIter isFirst
    have same := untouched isIter isFirst
    have noEvents : events = [] := by
      rw [same, List.self_eq_append_right] at grown
      exact grown
    rw [Memory.consumed, all, noEvents, List.nil_append,
      List.filterMap_append, dropConsumed, same]
    exact List.append_nil _
  case resolved =>
    rw [Memory.resolved, all, List.filterMap_append,
      List.filterMap_append, dropResolved, List.map_append, resolved]
    exact List.append_nil _
  case released =>
    rw [Memory.released, all, List.filterMap_append,
      List.filterMap_append, released, dropReleased]
    rfl

/-- A panic of `op`: its task has been taken out already. -/
theorem of_op
    (nodup : (taskIndices N range).Nodup)
    (clean : memory.events = [])
    (below : k < (taskIndices N range).length)
    {op : Nat → Option Task → Option Value}
    (panics :
      (Source.op op).PanicsAt ((taskIndices N range).map memory.tasks)
        k) :
    Unwound (taskIndices N range) (range.start &&& (N.size - 1)) k
      (.op op) memory ((Source.op op).run N true range memory) := by
  obtain ⟨works, panicsHere⟩ := panics
  have each (i : Nat) (inFront : i < k) :
      ∃ value,
        ∀ cell,
          (taskIndices N range)[i]? = some cell →
          op i (memory.tasks cell) = some value := by
    have atCell :=
      List.getElem?_eq_getElem (Nat.lt_trans inFront below)
    obtain ⟨value, applied⟩ :=
      works i _ inFront (by rw [List.getElem?_map, atCell]; rfl)
    refine ⟨value, fun cell found => ?_⟩
    rw [atCell] at found
    cases found
    exact applied
  obtain ⟨values, rfl, yields⟩ := exists_values each
  have atCell := List.getElem?_eq_getElem below
  have applies (i cell : Nat) (value : Value)
      (found : (taskIndices N range)[i]? = some cell)
      (isValue : values[i]? = some value) :
      op (0 + i) (memory.tasks cell) = some value := by
    rw [Nat.zero_add]
    exact yields i value isValue cell found
  have panicked :
      op (0 + values.length)
          (memory.tasks (taskIndices N range)[values.length]) =
        none := by
    rw [Nat.zero_add]
    exact panicsHere _ (by rw [List.getElem?_map, atCell]; rfl)
  obtain ⟨outcome, grown⟩ :=
    mapFrom_panics memory nodup applies atCell panicked
  obtain ⟨taken, resolved, released⟩ :=
    mapEvents_projections memory.tasks
      ((taskIndices N range).zip values)
  rw [map_fst_zip] at taken
  have run :
      (Source.op op).run N true range memory =
        (.unwound,
          dropAssignment N true range
            (mapFrom op 0 (taskIndices N range) memory).2) := by
    rw [Source.run, map, outcome]
    rfl
  rw [run]
  refine of_loop nodup clean grown ?_ (fun isIter => by cases isIter) ?_ ?_
  · rw [List.filterMap_append, taken, List.take_add_one, atCell]
    rfl
  · rw [List.filterMap_append, resolved, List.map_append, map_fst_zip]
    exact List.append_nil _
  · rw [List.filterMap_append, released]
    rfl

/-- A panic of the iterator: the next task is still in its cell. -/
theorem of_iter
    (nodup : (taskIndices N range).Nodup)
    (clean : memory.events = [])
    (below : k < (taskIndices N range).length)
    {iter : Nat → Next Value}
    (panics :
      (Source.iter iter).PanicsAt ((taskIndices N range).map memory.tasks)
        k) :
    Unwound (taskIndices N range) (range.start &&& (N.size - 1)) k
      (.iter iter) memory ((Source.iter iter).run N true range memory) := by
  obtain ⟨works, panicsHere⟩ := panics
  obtain ⟨values, rfl, yields⟩ := exists_values works
  have yieldsFrom (i : Nat) (value : Value)
      (found : values[i]? = some value) :
      iter (0 + i) = .item value := by
    rw [Nat.zero_add]
    exact yields i value found
  have looped :=
    resolveFrom_items true yieldsFrom (Nat.le_of_lt below) memory
  rw [List.drop_eq_getElem_cons below, resolveFrom, Nat.zero_add,
    panicsHere] at looped
  simp only at looped
  have pairsNodup :
      (((taskIndices N range).zip values).map Prod.fst).Nodup := by
    rw [map_fst_zip]
    exact nodup.sublist (List.take_sublist _ _)
  have grown := foldl_resolveCell true pairsNodup memory
  obtain ⟨taken, _, resolved, released⟩ :=
    resolveEvents_projections true memory.tasks
      ((taskIndices N range).zip values)
  rw [if_pos rfl, map_fst_zip] at taken
  have run :
      (Source.iter iter).run N true range memory =
        (.unwound,
          dropAssignment N true range
            (resolveFrom true iter 0 (taskIndices N range) memory).2) := by
    rw [Source.run, resolveWithIter, looped]
    rfl
  rw [run, looped]
  refine of_loop nodup clean grown ?_ ?_ ?_ released
  · rw [taken]
    rfl
  · intro _ isFirst
    rw [List.length_eq_zero_iff.mp isFirst, List.zip_nil_right]
    rfl
  · rw [resolved, map_fst_zip]

theorem of_source
    (nodup : (taskIndices N range).Nodup)
    (clean : memory.events = [])
    (below : k < (taskIndices N range).length)
    {source : Source Task Value}
    (panics :
      source.PanicsAt ((taskIndices N range).map memory.tasks) k) :
    Unwound (taskIndices N range) (range.start &&& (N.size - 1)) k source
      memory (source.run N true range memory) := by
  cases source with
  | op apply =>
      exact of_op nodup clean below panics
  | iter next =>
      exact of_iter nodup clean below panics

/-- Only a panic of the iterator's first call leaves each task once. -/
theorem consumedOnce_iff
    {cells : List Nat}
    {index : Nat}
    {source : Source Task Value}
    {result : Outcome × Memory Task Value}
    (unwound : Unwound cells index k source memory result)
    (below : k < cells.length) :
    ConsumedOnce cells index k memory result.2 ↔
      source.isIter = true ∧ k = 0 := by
  constructor
  · intro once
    have length := once.taken.length_eq
    rw [unwound.taken, List.length_append] at length
    cases isIter : source.isIter with
    | true =>
        simp only [isIter, if_true, List.length_take] at length
        exact ⟨rfl, by omega⟩
    | false =>
        simp only [isIter, Bool.false_eq_true, if_false, List.length_take]
          at length
        omega
  · rintro ⟨isIter, isFirst⟩
    constructor
    case taken =>
      rw [unwound.taken, isIter, if_pos rfl, isFirst, List.take_zero,
        List.nil_append]
    case consumed =>
      rw [unwound.consumed isIter isFirst]
    case resolved =>
      exact unwound.resolved
    case released =>
      exact unwound.released

end Unwound

/--
A caller's panic at position `k` of an assignment of `count` tasks unwinds;
the first `k` receivers have been resolved and the region is released once,
but each task has been taken out of its cell exactly once only if it is the
value iterator that panics, in its first call.
-/
theorem consumed_once_iff_first_next
    (N : BufferSize width)
    (memory : Memory Task Value)
    (clean : memory.events = [])
    (first count k : Nat)
    (near : count ≤ N.size)
    (below : k < count)
    (basePhase endPhase : Bool)
    (source : Source Task Value)
    (panics :
      source.PanicsAt
        ((CircularBuffer.window N.size first (first + count)).map
          memory.tasks) k)
    (result : Outcome × Memory Task Value)
    (returned :
      source.run N true
          (setBounds width (encodeSlot width first basePhase)
            (encodeSlot width (first + count) endPhase)) memory =
        result) :
    result.1 = .unwound ∧
      result.2.resolved.map Prod.fst =
        (CircularBuffer.window N.size first (first + count)).take k ∧
      result.2.released = [first % N.size] ∧
      (ConsumedOnce
          (CircularBuffer.window N.size first (first + count))
          (first % N.size) k memory result.2 ↔
        source.isIter = true ∧ k = 0) := by
  have slices :
      taskIndices N
          (setBounds width (encodeSlot width first basePhase)
            (encodeSlot width (first + count) endPhase)) =
        CircularBuffer.window N.size first (first + count) :=
    taskIndices_setBounds N (by omega) near basePhase endPhase
  have nodup :
      (CircularBuffer.window N.size first (first + count)).Nodup :=
    CircularBuffer.window_nodup (by omega)
  have inRange :
      k < (CircularBuffer.window N.size first (first + count)).length := by
    simpa [CircularBuffer.window] using below
  subst result
  rw [← slices] at panics nodup inRange ⊢
  rw [← bounds_start N first (first + count) basePhase endPhase]
  have unwound := Unwound.of_source nodup clean inRange panics
  exact ⟨unwound.outcome, unwound.resolved, unwound.released,
    unwound.consumedOnce_iff inRange⟩

/-- An iterator that panics at once. -/
def failing : Source Nat Nat :=
  .iter fun _ => .panicked

/-- It leaves three tasks around the end of the buffer to the destructor. -/
theorem consumed_once_iff_first_next_failing :
    (failing.run smallestBuffer true
          (setBounds .w64 (encodeSlot .w64 62 true)
            (encodeSlot .w64 (62 + 3) true)) filled).1 =
        .unwound ∧
      (failing.run smallestBuffer true
          (setBounds .w64 (encodeSlot .w64 62 true)
            (encodeSlot .w64 (62 + 3) true))
          filled).2.resolved.map Prod.fst =
        (CircularBuffer.window smallestBuffer.size 62 (62 + 3)).take 0 ∧
      (failing.run smallestBuffer true
          (setBounds .w64 (encodeSlot .w64 62 true)
            (encodeSlot .w64 (62 + 3) true)) filled).2.released =
        [62 % smallestBuffer.size] ∧
      (ConsumedOnce
          (CircularBuffer.window smallestBuffer.size 62 (62 + 3))
          (62 % smallestBuffer.size) 0 filled
          (failing.run smallestBuffer true
            (setBounds .w64 (encodeSlot .w64 62 true)
              (encodeSlot .w64 (62 + 3) true)) filled).2 ↔
        failing.isIter = true ∧ 0 = 0) :=
  consumed_once_iff_first_next smallestBuffer filled rfl 62 3 0
    (by decide) (by decide) true true failing
    ⟨fun _ inFront => (Nat.not_lt_zero _ inFront).elim, rfl⟩ _ rfl

/-- `op` panics on the only task of an assignment: it is taken out twice. -/
theorem panicking_op_takes_twice :
    (Source.op fun _ _ => none : Source Nat Nat).PanicsAt [some 0] 0 ∧
      (map smallestBuffer true (fun _ _ => none)
          (setBounds .w64 (encodeSlot .w64 0 true)
            (encodeSlot .w64 (0 + 1) true)) filled).2.taken =
        [0, 0] ∧
      ¬ ConsumedOnce [0] 0 0 filled
        (map smallestBuffer true (fun _ _ => none)
          (setBounds .w64 (encodeSlot .w64 0 true)
            (encodeSlot .w64 (0 + 1) true)) filled).2 := by
  have taken :
      (map smallestBuffer true (fun _ _ => none)
          (setBounds .w64 (encodeSlot .w64 0 true)
            (encodeSlot .w64 (0 + 1) true)) filled).2.taken =
        [0, 0] := by
    decide +kernel
  refine ⟨⟨fun _ _ inFront => (Nat.not_lt_zero _ inFront).elim,
    fun _ _ => rfl⟩, taken, fun once => ?_⟩
  have length := once.taken.length_eq
  rw [taken] at length
  cases length

end StackQueue.AssignedTasks
