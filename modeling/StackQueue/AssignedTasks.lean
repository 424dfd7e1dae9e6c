import StackQueue.RangeConsumers

namespace StackQueue.AssignedTasks

open Queue RangeConsumers

/-!
# Processing the tasks of an assignment

`map`, `resolve_with_iter` and the destructor of `TaskAssignment`, cell by
cell.  `op` and the value iterator are the caller's: either may panic, and the
iterator may be of any length.  A panic unwinds into the destructor, which
walks the whole range again.
-/

/-- What is done to the tasks of an assignment and to its region. -/
inductive Event (Task Value : Type) where
  /-- `take_task_unchecked` of a cell. -/
  | take (cell : Nat)
  /-- A task is handed to `op`. -/
  | hand (task : Option Task)
  /-- A task is dropped. -/
  | drop (task : Option Task)
  /-- `resolve_unchecked` of a cell. -/
  | resolve (cell : Nat) (value : Value)
  /-- `deoccupy_region`. -/
  | deoccupy (index : Nat)
  deriving Repr, DecidableEq

/-- The tasks in the cells, `none` where the memory is uninitialised. -/
structure Memory (Task Value : Type) where
  tasks : Nat → Option Task
  /-- What happened so far. -/
  events : List (Event Task Value)

/-- What one call of an iterator's `next` does. -/
inductive Next (Value : Type) where
  | item (value : Value)
  | finished
  | panicked
  deriving Repr, DecidableEq

/-- How a call ends. -/
inductive Outcome where
  /-- With a `CompletionReceipt`. -/
  | receipt
  | unwound
  deriving Repr, DecidableEq

variable {width : PointerWidth} {Task Value : Type}

namespace Memory

def record
    (memory : Memory Task Value)
    (event : Event Task Value) :
    Memory Task Value :=
  { memory with events := memory.events ++ [event] }

/-- `take_task_unchecked`. -/
def takeTaskUnchecked
    (memory : Memory Task Value)
    (cell : Nat) :
    Option Task × Memory Task Value :=
  (memory.tasks cell,
    { memory with
      tasks := Function.update memory.tasks cell none
      events := memory.events ++ [.take cell] })

/-- `drop(task_ref.take_task_unchecked())`. -/
def dropTask
    (memory : Memory Task Value)
    (cell : Nat) :
    Memory Task Value :=
  let taken := memory.takeTaskUnchecked cell
  taken.2.record (.drop taken.1)

end Memory

/-- `TaskAssignment::deoccupy_buffer`. -/
def deoccupyBuffer
    (N : BufferSize width)
    (range : CounterRange)
    (memory : Memory Task Value) :
    Memory Task Value :=
  memory.record (.deoccupy (range.start &&& (N.size - 1)))

/-- `TaskAssignment::drop`. -/
def dropAssignment
    (N : BufferSize width)
    (needsDrop : Bool)
    (range : CounterRange)
    (memory : Memory Task Value) :
    Memory Task Value :=
  deoccupyBuffer N range
    (if needsDrop then
      (taskIndices N range).foldl Memory.dropTask memory
    else
      memory)

/-- The end of a body: `into_completion_receipt`, or the destructor. -/
def conclude
    (N : BufferSize width)
    (needsDrop : Bool)
    (range : CounterRange)
    (memory : Memory Task Value) :
    Outcome → Memory Task Value
  | .receipt => deoccupyBuffer N range memory
  | .unwound => dropAssignment N needsDrop range memory

/-- The loop of `map`; `none` is a panic of `op`. -/
def mapFrom
    (op : Nat → Option Task → Option Value) :
    Nat → List Nat → Memory Task Value → Outcome × Memory Task Value
  | _, [], memory => (.receipt, memory)
  | call, cell :: cells, memory =>
      let taken := memory.takeTaskUnchecked cell
      let handed := taken.2.record (.hand taken.1)
      match op call taken.1 with
      | some value =>
          mapFrom op (call + 1) cells (handed.record (.resolve cell value))
      | none => (.unwound, handed)

/-- `TaskAssignment::map`. -/
def map
    (N : BufferSize width)
    (needsDrop : Bool)
    (op : Nat → Option Task → Option Value)
    (range : CounterRange)
    (memory : Memory Task Value) :
    Outcome × Memory Task Value :=
  let processed := mapFrom op 0 (taskIndices N range) memory
  (processed.1, conclude N needsDrop range processed.2 processed.1)

/-- What `resolve_with_iter` does with one cell and one value. -/
def resolveCell
    (needsDrop : Bool)
    (memory : Memory Task Value)
    (cell : Nat)
    (value : Value) :
    Memory Task Value :=
  (if needsDrop then memory.dropTask cell else memory).record
    (.resolve cell value)

/-- The loop of `resolve_with_iter`: `zip` asks for a cell, then for a value. -/
def resolveFrom
    (needsDrop : Bool)
    (iter : Nat → Next Value) :
    Nat → List Nat → Memory Task Value → Outcome × Memory Task Value
  | _, [], memory => (.receipt, memory)
  | call, cell :: cells, memory =>
      match iter call with
      | .item value =>
          resolveFrom needsDrop iter (call + 1) cells
            (resolveCell needsDrop memory cell value)
      | .finished => (.receipt, memory)
      | .panicked => (.unwound, memory)

/-- `TaskAssignment::resolve_with_iter`. -/
def resolveWithIter
    (N : BufferSize width)
    (needsDrop : Bool)
    (iter : Nat → Next Value)
    (range : CounterRange)
    (memory : Memory Task Value) :
    Outcome × Memory Task Value :=
  let processed :=
    resolveFrom needsDrop iter 0 (taskIndices N range) memory
  (processed.1, conclude N needsDrop range processed.2 processed.1)

/-! ## What happened -/

namespace Event

def taken? : Event Task Value → Option Nat
  | .take cell => some cell
  | _ => none

/-- A task that was handed to `op` or dropped. -/
def consumed? : Event Task Value → Option (Option Task)
  | .hand task | .drop task => some task
  | _ => none

def resolved? : Event Task Value → Option (Nat × Value)
  | .resolve cell value => some (cell, value)
  | _ => none

def released? : Event Task Value → Option Nat
  | .deoccupy index => some index
  | _ => none

end Event

namespace Memory

/-- The cells whose task was taken out. -/
def taken (memory : Memory Task Value) : List Nat :=
  memory.events.filterMap Event.taken?

/-- The tasks that were handed to `op` or dropped. -/
def consumed (memory : Memory Task Value) : List (Option Task) :=
  memory.events.filterMap Event.consumed?

/-- The cells that were resolved, with their values. -/
def resolved (memory : Memory Task Value) : List (Nat × Value) :=
  memory.events.filterMap Event.resolved?

/-- The indices whose region was released. -/
def released (memory : Memory Task Value) : List Nat :=
  memory.events.filterMap Event.released?

end Memory

/-! ## The destructor -/

/-- The events of dropping the tasks of some cells. -/
def dropEvents
    (tasks : Nat → Option Task)
    (cells : List Nat) :
    List (Event Task Value) :=
  cells.flatMap fun cell => [.take cell, .drop (tasks cell)]

theorem dropEvents_projections
    (Value : Type)
    (tasks : Nat → Option Task)
    (cells : List Nat) :
    (dropEvents tasks cells :
          List (Event Task Value)).filterMap Event.taken? = cells ∧
      (dropEvents tasks cells :
          List (Event Task Value)).filterMap Event.consumed? =
        cells.map tasks ∧
      (dropEvents tasks cells :
          List (Event Task Value)).filterMap Event.resolved? = [] ∧
      (dropEvents tasks cells :
          List (Event Task Value)).filterMap Event.released? = [] := by
  induction cells with
  | nil =>
      exact ⟨rfl, rfl, rfl, rfl⟩
  | cons cell rest inductionHypothesis =>
      obtain ⟨taken, consumed, resolved, released⟩ := inductionHypothesis
      refine ⟨?_, ?_, ?_, ?_⟩
      · exact congrArg (cell :: ·) taken
      · exact congrArg (tasks cell :: ·) consumed
      · exact resolved
      · exact released

/-- Tasks of other cells stay where they are. -/
theorem dropEvents_congr
    {tasks other : Nat → Option Task}
    {cells : List Nat}
    (same : ∀ cell ∈ cells, other cell = tasks cell) :
    (dropEvents other cells : List (Event Task Value)) =
      dropEvents tasks cells := by
  refine List.flatMap_congr fun cell member => ?_
  rw [same cell member]

/-- Dropping the tasks of distinct cells takes each of them out once. -/
theorem foldl_dropTask
    {cells : List Nat}
    (nodup : cells.Nodup)
    (memory : Memory Task Value) :
    (cells.foldl Memory.dropTask memory).events =
      memory.events ++ dropEvents memory.tasks cells := by
  induction cells generalizing memory with
  | nil =>
      exact (List.append_nil _).symm
  | cons cell rest inductionHypothesis =>
      obtain ⟨fresh, restNodup⟩ := List.nodup_cons.mp nodup
      have same (other : Nat) (member : other ∈ rest) :
          (memory.dropTask cell).tasks other = memory.tasks other := by
        refine Function.update_of_ne (fun here => ?_) _ _
        exact fresh (here ▸ member)
      rw [List.foldl_cons, inductionHypothesis restNodup,
        dropEvents_congr same]
      simp [Memory.dropTask, Memory.takeTaskUnchecked, Memory.record,
        dropEvents]

/-- The destructor drops each task of the range and releases the region. -/
theorem dropAssignment_events
    (N : BufferSize width)
    {range : CounterRange}
    (nodup : (taskIndices N range).Nodup)
    (memory : Memory Task Value) :
    (dropAssignment N true range memory).events =
      memory.events ++
        (dropEvents memory.tasks (taskIndices N range) ++
          [.deoccupy (range.start &&& (N.size - 1))]) := by
  rw [dropAssignment, if_pos rfl, deoccupyBuffer, Memory.record,
    foldl_dropTask nodup, List.append_assoc]

/-! ## The loop of `resolve_with_iter` -/

/-- The events of resolving some cells with some values. -/
def resolveEvents
    (needsDrop : Bool)
    (tasks : Nat → Option Task)
    (pairs : List (Nat × Value)) :
    List (Event Task Value) :=
  pairs.flatMap fun pair =>
    (if needsDrop then dropEvents tasks [pair.1] else []) ++
      [.resolve pair.1 pair.2]

theorem resolveEvents_projections
    (needsDrop : Bool)
    (tasks : Nat → Option Task)
    (pairs : List (Nat × Value)) :
    (resolveEvents needsDrop tasks pairs).filterMap Event.taken? =
        (if needsDrop then pairs.map Prod.fst else []) ∧
      (resolveEvents needsDrop tasks pairs).filterMap Event.consumed? =
        (if needsDrop then pairs.map fun pair => tasks pair.1 else []) ∧
      (resolveEvents needsDrop tasks pairs).filterMap Event.resolved? =
        pairs ∧
      (resolveEvents needsDrop tasks pairs).filterMap Event.released? =
        [] := by
  induction pairs with
  | nil =>
      cases needsDrop <;> exact ⟨rfl, rfl, rfl, rfl⟩
  | cons pair rest inductionHypothesis =>
      obtain ⟨taken, consumed, resolved, released⟩ := inductionHypothesis
      cases needsDrop with
      | true =>
          refine ⟨?_, ?_, ?_, ?_⟩
          · exact congrArg (pair.1 :: ·) taken
          · exact congrArg (tasks pair.1 :: ·) consumed
          · exact congrArg (pair :: ·) resolved
          · exact released
      | false =>
          refine ⟨?_, ?_, ?_, ?_⟩
          · exact taken
          · exact consumed
          · exact congrArg (pair :: ·) resolved
          · exact released

/-- Resolving distinct cells, one value after the other. -/
theorem foldl_resolveCell
    (needsDrop : Bool)
    {pairs : List (Nat × Value)}
    (nodup : (pairs.map Prod.fst).Nodup)
    (memory : Memory Task Value) :
    (pairs.foldl
        (fun memory pair => resolveCell needsDrop memory pair.1 pair.2)
        memory).events =
      memory.events ++ resolveEvents needsDrop memory.tasks pairs := by
  induction pairs generalizing memory with
  | nil =>
      exact (List.append_nil _).symm
  | cons pair rest inductionHypothesis =>
      obtain ⟨fresh, restNodup⟩ := List.nodup_cons.mp nodup
      have same (other : Nat × Value) (member : other ∈ rest) :
          (resolveCell needsDrop memory pair.1 pair.2).tasks other.1 =
            memory.tasks other.1 := by
        cases needsDrop with
        | true =>
            refine Function.update_of_ne (fun here => ?_) _ _
            exact fresh (here ▸ List.mem_map_of_mem member)
        | false =>
            rfl
      have restEvents :
          resolveEvents needsDrop
              (resolveCell needsDrop memory pair.1 pair.2).tasks rest =
            resolveEvents needsDrop memory.tasks rest := by
        refine List.flatMap_congr fun other member => ?_
        rw [dropEvents, dropEvents, List.flatMap_singleton,
          List.flatMap_singleton, same other member]
      rw [List.foldl_cons, inductionHypothesis restNodup, restEvents]
      cases needsDrop <;>
        simp [resolveCell, Memory.dropTask, Memory.takeTaskUnchecked,
          Memory.record, resolveEvents, dropEvents]

/-- As long as the iterator yields values, cells are resolved with them. -/
theorem resolveFrom_items
    (needsDrop : Bool)
    {iter : Nat → Next Value}
    {values : List Value}
    {call : Nat}
    {cells : List Nat}
    (yields :
      ∀ (i : Nat) (value : Value),
        values[i]? = some value → iter (call + i) = .item value)
    (enough : values.length ≤ cells.length)
    (memory : Memory Task Value) :
    resolveFrom needsDrop iter call cells memory =
      resolveFrom needsDrop iter (call + values.length)
        (cells.drop values.length)
        ((cells.zip values).foldl
          (fun memory pair => resolveCell needsDrop memory pair.1 pair.2)
          memory) := by
  induction values generalizing call cells memory with
  | nil =>
      simp
  | cons value rest inductionHypothesis =>
      cases cells with
      | nil =>
          cases enough
      | cons cell cells =>
          have first : iter call = .item value := yields 0 value rfl
          have later (i : Nat) (next : Value) (found : rest[i]? = some next) :
              iter (call + 1 + i) = .item next := by
            rw [Nat.add_assoc, Nat.add_comm 1]
            exact yields (i + 1) next found
          rw [resolveFrom, first]
          simp only
          rw [inductionHypothesis later (Nat.le_of_succ_le_succ enough)]
          simp only [List.length_cons, List.drop_succ_cons,
            List.zip_cons_cons, List.foldl_cons]
          rw [Nat.add_assoc, Nat.add_comm 1]

/-- The first values of a sequence that has that many. -/
theorem exists_values
    {yields : Nat → Value → Prop}
    {count : Nat}
    (each : ∀ i, i < count → ∃ value, yields i value) :
    ∃ values : List Value,
      values.length = count ∧
        ∀ (i : Nat) (value : Value),
          values[i]? = some value → yields i value := by
  induction count with
  | zero =>
      exact ⟨[], rfl, fun _ _ found => by cases found⟩
  | succ count inductionHypothesis =>
      obtain ⟨values, length, all⟩ :=
        inductionHypothesis fun i below => each i (Nat.lt_succ_of_lt below)
      obtain ⟨last, isLast⟩ := each count (Nat.lt_succ_self count)
      refine ⟨values ++ [last], by simp [length], ?_⟩
      intro i value found
      rcases ListUpdate.getElem?_concat_cases found with
        earlier | ⟨atEnd, isValue⟩
      · exact all i value earlier
      · rw [atEnd, length, isValue]
        exact isLast

/-- The cells that get a value are the first ones. -/
theorem map_fst_zip
    (cells : List Nat)
    (values : List Value) :
    (cells.zip values).map Prod.fst = cells.take values.length := by
  induction cells generalizing values with
  | nil =>
      simp
  | cons cell rest inductionHypothesis =>
      cases values with
      | nil =>
          rfl
      | cons value values =>
          exact congrArg (cell :: ·) (inductionHypothesis values)

/-! ## The loop of `map` -/

/-- The events of mapping some cells to some values. -/
def mapEvents
    (tasks : Nat → Option Task)
    (pairs : List (Nat × Value)) :
    List (Event Task Value) :=
  pairs.flatMap fun pair =>
    [.take pair.1, .hand (tasks pair.1), .resolve pair.1 pair.2]

theorem mapEvents_projections
    (tasks : Nat → Option Task)
    (pairs : List (Nat × Value)) :
    (mapEvents tasks pairs).filterMap Event.taken? =
        pairs.map Prod.fst ∧
      (mapEvents tasks pairs).filterMap Event.resolved? = pairs ∧
      (mapEvents tasks pairs).filterMap Event.released? = [] := by
  induction pairs with
  | nil =>
      exact ⟨rfl, rfl, rfl⟩
  | cons pair rest inductionHypothesis =>
      obtain ⟨taken, resolved, released⟩ := inductionHypothesis
      refine ⟨?_, ?_, ?_⟩
      · exact congrArg (pair.1 :: ·) taken
      · exact congrArg (pair :: ·) resolved
      · exact released

/-- The task at which `op` panics has been taken out of its cell. -/
theorem mapFrom_panics
    {op : Nat → Option Task → Option Value}
    {values : List Value}
    {call : Nat}
    {cells : List Nat}
    (memory : Memory Task Value)
    (nodup : cells.Nodup)
    (yields :
      ∀ (i : Nat) (cell : Nat) (value : Value),
        cells[i]? = some cell →
        values[i]? = some value →
        op (call + i) (memory.tasks cell) = some value)
    {cell : Nat}
    (atCell : cells[values.length]? = some cell)
    (panics : op (call + values.length) (memory.tasks cell) = none) :
    (mapFrom op call cells memory).1 = .unwound ∧
      (mapFrom op call cells memory).2.events =
        memory.events ++
          (mapEvents memory.tasks (cells.zip values) ++
            [.take cell, .hand (memory.tasks cell)]) := by
  induction values generalizing call cells memory with
  | nil =>
      cases cells with
      | nil =>
          cases atCell
      | cons head cells =>
          cases atCell
          have panicked :
              op call (memory.takeTaskUnchecked cell).1 = none :=
            panics
          rw [mapFrom]
          simp only [panicked]
          simp [Memory.takeTaskUnchecked, Memory.record, mapEvents]
  | cons value rest inductionHypothesis =>
      cases cells with
      | nil =>
          cases atCell
      | cons head cells =>
          obtain ⟨fresh, restNodup⟩ := List.nodup_cons.mp nodup
          have applied :
              op call (memory.takeTaskUnchecked head).1 = some value :=
            yields 0 head value rfl rfl
          have differs {other : Nat} (member : other ∈ cells) :
              other ≠ head := by
            intro here
            exact fresh (here ▸ member)
          have same {other : Nat} (member : other ∈ cells) :
              Function.update memory.tasks head none other =
                memory.tasks other :=
            Function.update_of_ne (differs member) _ _
          let resolved : Memory Task Value :=
            ((memory.takeTaskUnchecked head).2.record
              (.hand (memory.tasks head))).record (.resolve head value)
          have laterYields (i other : Nat) (next : Value)
              (found : cells[i]? = some other)
              (isNext : rest[i]? = some next) :
              op (call + 1 + i) (resolved.tasks other) = some next := by
            rw [show resolved.tasks other = _ from
              same (List.mem_of_getElem? found),
              Nat.add_assoc, Nat.add_comm 1]
            exact yields (i + 1) other next found isNext
          have laterPanics :
              op (call + 1 + rest.length) (resolved.tasks cell) =
                none := by
            rw [show resolved.tasks cell = _ from
              same (List.mem_of_getElem? atCell),
              Nat.add_assoc, Nat.add_comm 1]
            exact panics
          obtain ⟨unwound, events⟩ :=
            inductionHypothesis resolved restNodup laterYields atCell
              laterPanics
          have tail :
              mapEvents resolved.tasks (cells.zip rest) =
                mapEvents memory.tasks (cells.zip rest) := by
            refine List.flatMap_congr fun pair member => ?_
            rw [show resolved.tasks pair.1 = _ from
              same (List.of_mem_zip member).1]
          have looped :
              mapFrom op call (head :: cells) memory =
                mapFrom op (call + 1) cells resolved := by
            rw [mapFrom]
            simp only [applied]
            rfl
          rw [looped]
          refine ⟨unwound, ?_⟩
          rw [events, tail, show resolved.tasks cell = _ from
            same (List.mem_of_getElem? atCell)]
          simp [resolved, Memory.takeTaskUnchecked, Memory.record,
            mapEvents]

/-- The region that is released is that of the first task. -/
theorem bounds_start
    (N : BufferSize width)
    (first last : Nat)
    (basePhase endPhase : Bool) :
    (setBounds width (encodeSlot width first basePhase)
          (encodeSlot width last endPhase)).start &&&
        (N.size - 1) =
      first % N.size := by
  rw [N.and_size_sub_one, RangeConsumers.setBounds,
    encodeSlot_shiftRight, N.mod_counter_mod]

/-- Cells that hold their own indices. -/
def filled : Memory Nat Nat :=
  ⟨some, []⟩

end StackQueue.AssignedTasks
