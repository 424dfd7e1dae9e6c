import StackQueue.AssignedTasks

namespace StackQueue.AssignedTasks

open Queue RangeConsumers

/-!
# Completion receipts

`zip` ends with the shorter of the tasks and the values, and what follows is
the same in both cases: the region is released, the assignment forgotten and a
`CompletionReceipt` returned.
-/

variable {width : PointerWidth} {Task Value : Type}

/--
Each task was resolved once, with the value at its own position, and dropped
if that is needed; and the region was released after that.
-/
structure Completed
    (cells : List Nat)
    (index : Nat)
    (needsDrop : Bool)
    (iter : Nat → Next Value)
    (before after : Memory Task Value) : Prop where
  resolved : after.resolved.map Prod.fst = cells
  values :
    ∀ (i cell : Nat) (value : Value),
      after.resolved[i]? = some (cell, value) →
      iter i = .item value
  dropped :
    needsDrop = true →
    after.taken = cells ∧ after.consumed = cells.map before.tasks
  released :
    ∃ earlier,
      after.events = earlier ++ [.deoccupy index] ∧
        earlier.filterMap Event.released? = []

/-- The events of a completed batch. -/
theorem Completed.of_events
    {cells : List Nat}
    {index : Nat}
    {needsDrop : Bool}
    {iter : Nat → Next Value}
    {before after : Memory Task Value}
    {values : List Value}
    (length : values.length = cells.length)
    (yields :
      ∀ (i : Nat) (value : Value),
        values[i]? = some value → iter i = .item value)
    (events :
      after.events =
        resolveEvents needsDrop before.tasks (cells.zip values) ++
          [.deoccupy index]) :
    Completed cells index needsDrop iter before after := by
  obtain ⟨taken, consumed, resolved, released⟩ :=
    resolveEvents_projections needsDrop before.tasks (cells.zip values)
  have pairs : (cells.zip values).map Prod.fst = cells := by
    rw [map_fst_zip, length, List.take_length]
  have allResolved : after.resolved = cells.zip values := by
    rw [Memory.resolved, events, List.filterMap_append, resolved]
    exact List.append_nil _
  constructor
  case resolved =>
    rw [allResolved, pairs]
  case values =>
    intro i cell value found
    rw [allResolved, List.getElem?_zip_eq_some] at found
    exact yields i value found.2
  case dropped =>
    intro isNeeded
    rw [isNeeded, if_pos rfl] at taken consumed
    have images :
        (cells.zip values).map (fun pair => before.tasks pair.1) =
          cells.map before.tasks := by
      rw [← pairs, List.map_map, pairs]
      rfl
    constructor
    · rw [Memory.taken, events, List.filterMap_append, isNeeded, taken,
        pairs]
      exact List.append_nil _
    · rw [Memory.consumed, events, List.filterMap_append, isNeeded,
        consumed, images]
      exact List.append_nil _
  case released =>
    exact ⟨_, events, released⟩

/-- The values before the iterator's end are all that is delivered. -/
theorem resolveWithIter_receipt
    (N : BufferSize width)
    (needsDrop : Bool)
    {iter : Nat → Next Value}
    {range : CounterRange}
    {values : List Value}
    (nodup : (taskIndices N range).Nodup)
    (yields :
      ∀ (i : Nat) (value : Value),
        values[i]? = some value → iter i = .item value)
    (enough : values.length ≤ (taskIndices N range).length)
    (ends :
      values.length = (taskIndices N range).length ∨
        iter values.length = .finished)
    (memory : Memory Task Value) :
    (resolveWithIter N needsDrop iter range memory).1 = .receipt ∧
      (resolveWithIter N needsDrop iter range memory).2.events =
        memory.events ++
          resolveEvents needsDrop memory.tasks
            ((taskIndices N range).zip values) ++
          [.deoccupy (range.start &&& (N.size - 1))] := by
  have yieldsFrom (i : Nat) (value : Value)
      (found : values[i]? = some value) :
      iter (0 + i) = .item value := by
    rw [Nat.zero_add]
    exact yields i value found
  have looped := resolveFrom_items needsDrop yieldsFrom enough memory
  have pairsNodup :
      (((taskIndices N range).zip values).map Prod.fst).Nodup := by
    rw [map_fst_zip]
    exact nodup.sublist (List.take_sublist _ _)
  have grown := foldl_resolveCell needsDrop pairsNodup memory
  have ended :
      resolveFrom needsDrop iter 0 (taskIndices N range) memory =
        (.receipt,
          ((taskIndices N range).zip values).foldl
            (fun memory pair =>
              resolveCell needsDrop memory pair.1 pair.2) memory) := by
    rw [looped]
    rcases Nat.eq_or_lt_of_le enough with all | short
    · rw [all, List.drop_length, resolveFrom]
    · have finished : iter (0 + values.length) = .finished := by
        rw [Nat.zero_add]
        exact ends.resolve_left short.ne
      rw [List.drop_eq_getElem_cons short, resolveFrom, finished]
  rw [resolveWithIter, ended]
  exact ⟨rfl, congrArg (· ++ _) grown⟩

/--
`resolve_with_iter` returns a receipt also when the iterator ends early: the
batch is completed exactly if the iterator has a value for each of its tasks.
-/
theorem receipt_completes_iff_enough_values
    (N : BufferSize width)
    (memory : Memory Task Value)
    (clean : memory.events = [])
    (first count : Nat)
    (nonempty : 0 < count)
    (near : count ≤ N.size)
    (basePhase endPhase : Bool)
    (needsDrop : Bool)
    (iter : Nat → Next Value)
    (result : Memory Task Value)
    (returned :
      resolveWithIter N needsDrop iter
          (setBounds width (encodeSlot width first basePhase)
            (encodeSlot width (first + count) endPhase)) memory =
        (.receipt, result)) :
    Completed (CircularBuffer.window N.size first (first + count))
        (first % N.size) needsDrop iter memory result ↔
      ∀ i, i < count → ∃ value, iter i = .item value := by
  have length :
      (CircularBuffer.window N.size first (first + count)).length =
        count := by
    simp [CircularBuffer.window]
  constructor
  · intro completed i below
    have all := congrArg List.length completed.resolved
    rw [List.length_map, length] at all
    have found := List.getElem?_eq_getElem (all.symm ▸ below)
    exact ⟨_, completed.values i _ _ found⟩
  · intro works
    obtain ⟨values, isCount, yields⟩ := exists_values works
    have slices :
        taskIndices N
            (setBounds width (encodeSlot width first basePhase)
              (encodeSlot width (first + count) endPhase)) =
          CircularBuffer.window N.size first (first + count) :=
      taskIndices_setBounds N nonempty near basePhase endPhase
    have nodup :
        (CircularBuffer.window N.size first (first + count)).Nodup :=
      CircularBuffer.window_nodup (by omega)
    rw [← slices] at nodup length
    obtain ⟨_, events⟩ :=
      resolveWithIter_receipt N needsDrop nodup yields (by omega)
        (Or.inl (by omega)) memory
    rw [returned, slices, bounds_start, clean, List.nil_append] at events
    exact Completed.of_events (by rw [← slices, isCount, length]) yields
      events

/-- An iterator that yields its calls' numbers below a bound. -/
def below (bound : Nat) (call : Nat) : Next Nat :=
  if call < bound then .item call else .finished

/-- Three tasks around the end of the buffer, and values for all of them. -/
theorem receipt_completes_iff_enough_values_below :
    ∃ result : Memory Nat Nat,
      resolveWithIter smallestBuffer true (below 5)
          (setBounds .w64 (encodeSlot .w64 62 true)
            (encodeSlot .w64 (62 + 3) true)) filled =
        (.receipt, result) ∧
        (Completed
            (CircularBuffer.window smallestBuffer.size 62 (62 + 3))
            (62 % smallestBuffer.size) true (below 5) filled result ↔
          ∀ i, i < 3 → ∃ value, below 5 i = .item value) := by
  have performed :
      (resolveWithIter smallestBuffer true (below 5)
          (setBounds .w64 (encodeSlot .w64 62 true)
            (encodeSlot .w64 (62 + 3) true)) filled).1 =
        .receipt := by
    decide +kernel
  have returned :
      resolveWithIter smallestBuffer true (below 5)
          (setBounds .w64 (encodeSlot .w64 62 true)
            (encodeSlot .w64 (62 + 3) true)) filled =
        (.receipt,
          (resolveWithIter smallestBuffer true (below 5)
            (setBounds .w64 (encodeSlot .w64 62 true)
              (encodeSlot .w64 (62 + 3) true)) filled).2) :=
    Prod.ext performed rfl
  exact ⟨_, returned,
    receipt_completes_iff_enough_values smallestBuffer filled rfl 62 3
      (by decide) (by decide) true true true (below 5) _ returned⟩

/-- One value for two tasks: a receipt, and the second task is left. -/
theorem short_iterator_strands :
    ∃ result : Memory Nat Nat,
      resolveWithIter smallestBuffer true (below 1)
          (setBounds .w64 (encodeSlot .w64 0 true)
            (encodeSlot .w64 (0 + 2) true)) filled =
        (.receipt, result) ∧
        result.resolved = [(0, 0)] ∧
        result.taken = [0] ∧
        result.released = [0] ∧
        ¬ Completed [0, 1] 0 true (below 1) filled result := by
  have performed :
      ((resolveWithIter smallestBuffer true (below 1)
            (setBounds .w64 (encodeSlot .w64 0 true)
              (encodeSlot .w64 (0 + 2) true)) filled).1,
          (resolveWithIter smallestBuffer true (below 1)
            (setBounds .w64 (encodeSlot .w64 0 true)
              (encodeSlot .w64 (0 + 2) true)) filled).2.events) =
        (.receipt,
          [.take 0, .drop (some 0), .resolve 0 0, .deoccupy 0]) := by
    decide +kernel
  generalize
    resolveWithIter smallestBuffer true (below 1)
        (setBounds .w64 (encodeSlot .w64 0 true)
          (encodeSlot .w64 (0 + 2) true)) filled =
      returned at performed ⊢
  obtain ⟨outcome, result⟩ := returned
  simp only [Prod.mk.injEq] at performed
  obtain ⟨isReceipt, events⟩ := performed
  subst isReceipt
  have resolved : result.resolved = [(0, 0)] := by
    rw [Memory.resolved, events]
    rfl
  refine ⟨result, rfl, resolved, ?_, ?_, fun completed => ?_⟩
  · rw [Memory.taken, events]
    rfl
  · rw [Memory.released, events]
    rfl
  · have all := completed.resolved
    rw [resolved] at all
    cases all

end StackQueue.AssignedTasks
