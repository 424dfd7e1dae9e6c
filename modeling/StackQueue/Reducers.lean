import Mathlib.Algebra.BigOperators.Group.List.Basic
import Mathlib.Data.List.Basic

namespace Reducers

/-!
# Programs that draw from an iterator

A reducer is a program that asks an iterator for items one at a time and may
return at any point.  It is given by its control states and what each of them
does next; `Runs` is its meaning on a list of items, which an exhausted
iterator ends with any number of `none`s.
-/

/-- What a reducer does next. -/
inductive Step (Item Result Control : Type) where
  /-- It returns. -/
  | done (result : Result)
  /-- It calls `next` and goes on with what that returns. -/
  | next (resume : Option Item → Control)

variable {Item Result Control : Type}

/-- The reducer, run on a list of items from a control state on, returns. -/
inductive Runs
    (act : Control → Step Item Result Control) :
    Control → List Item → Result → Prop where
  | done
      {control : Control}
      {items : List Item}
      {result : Result}
      (acts : act control = .done result) :
      Runs act control items result
  | item
      {control : Control}
      {resume : Option Item → Control}
      {first : Item}
      {rest : List Item}
      {result : Result}
      (acts : act control = .next resume)
      (runs : Runs act (resume (some first)) rest result) :
      Runs act control (first :: rest) result
  | exhausted
      {control : Control}
      {resume : Option Item → Control}
      {result : Result}
      (acts : act control = .next resume)
      (runs : Runs act (resume none) [] result) :
      Runs act control [] result

/-- A reducer returns at most one result. -/
theorem Runs.unique
    {act : Control → Step Item Result Control}
    {control : Control}
    {items : List Item}
    {first second : Result}
    (one : Runs act control items first)
    (other : Runs act control items second) :
    first = second := by
  induction one with
  | done acts =>
      cases other with
      | done same =>
          rw [acts] at same
          exact Step.done.inj same
      | item differs _ | exhausted differs _ =>
          rw [acts] at differs
          cases differs
  | item acts _ inductionHypothesis =>
      cases other with
      | done differs =>
          rw [acts] at differs
          cases differs
      | item same runs =>
          rw [acts] at same
          cases same
          exact inductionHypothesis runs
  | exhausted acts _ inductionHypothesis =>
      cases other with
      | done differs =>
          rw [acts] at differs
          cases differs
      | exhausted same runs =>
          rw [acts] at same
          cases same
          exact inductionHypothesis runs

/-! ## Folds -/

/-- `Iterator::fold`: the accumulator, and whether the iterator has ended. -/
def fold (combine : Result → Item → Result) :
    Result × Bool → Step Item Result (Result × Bool)
  | (accumulator, true) => .done accumulator
  | (accumulator, false) =>
      .next fun item =>
        item.elim (accumulator, true) fun value =>
          (combine accumulator value, false)

/-- A fold returns the fold of all items. -/
theorem runs_fold
    (combine : Result → Item → Result)
    (accumulator : Result)
    (items : List Item) :
    Runs (fold combine) (accumulator, false) items
      (items.foldl combine accumulator) := by
  induction items generalizing accumulator with
  | nil =>
      exact .exhausted rfl (.done rfl)
  | cons item rest inductionHypothesis =>
      exact .item rfl (inductionHypothesis (combine accumulator item))

theorem runs_fold_iff
    {combine : Result → Item → Result}
    {accumulator result : Result}
    {items : List Item} :
    Runs (fold combine) (accumulator, false) items result ↔
      result = items.foldl combine accumulator := by
  constructor
  · intro runs
    exact runs.unique (runs_fold combine accumulator items)
  · intro shape
    rw [shape]
    exact runs_fold combine accumulator items

/-! ## Sums -/

section Sums

variable {Amount : Type} [AddCommMonoid Amount]

/-- A sum of the items, one after another, is their sum. -/
theorem foldl_add_eq_sum
    (value : Item → Amount)
    (accumulator : Amount)
    (items : List Item) :
    items.foldl (fun sum item => sum + value item) accumulator =
      accumulator + (items.map value).sum := by
  induction items generalizing accumulator with
  | nil =>
      exact (add_zero accumulator).symm
  | cons item rest inductionHypothesis =>
      rw [List.foldl_cons, inductionHypothesis, List.map_cons,
        List.sum_cons, add_assoc]

/-- Sums of parts that add up one by one add up. -/
theorem sum_mapIdx_add
    {items : List Item}
    {first second whole : Nat → Item → Amount}
    (each :
      ∀ (i : Nat) (item : Item),
        items[i]? = some item →
        first i item + second i item = whole i item) :
    (items.mapIdx first).sum + (items.mapIdx second).sum =
      (items.mapIdx whole).sum := by
  induction items generalizing first second whole with
  | nil =>
      exact add_zero 0
  | cons item rest inductionHypothesis =>
      have here := each 0 item rfl
      have later :=
        inductionHypothesis fun i next found => each (i + 1) next found
      rw [List.mapIdx_cons, List.mapIdx_cons, List.mapIdx_cons,
        List.sum_cons, List.sum_cons, List.sum_cons, ← here, ← later,
        add_add_add_comm]

/-- The sum over joined parts is the sum of the parts' sums. -/
theorem sum_flatten_mapIdx
    {Entry : Type}
    (items : List Item)
    (parts : Nat → Item → List Entry)
    (value : Entry → Amount) :
    ((items.mapIdx parts).flatten.map value).sum =
      (items.mapIdx fun i item => ((parts i item).map value).sum).sum := by
  induction items generalizing parts with
  | nil =>
      rfl
  | cons item rest inductionHypothesis =>
      have later := inductionHypothesis fun i => parts (i + 1)
      rw [List.mapIdx_cons, List.mapIdx_cons, List.flatten_cons,
        List.map_append, List.sum_append, List.sum_cons, later]

theorem sum_mapIdx_zero
    (items : List Item) :
    (items.mapIdx fun _ _ => (0 : Amount)).sum = 0 := by
  induction items with
  | nil =>
      rfl
  | cons item rest inductionHypothesis =>
      rw [List.mapIdx_cons, List.sum_cons, inductionHypothesis, add_zero]

/-- One amount at one place of a list adds that amount. -/
theorem sum_mapIdx_single
    (items : List Item)
    (amount : Amount)
    {place : Nat}
    (inBounds : place < items.length) :
    (items.mapIdx fun i _ => if place = i then amount else 0).sum =
      amount := by
  induction items generalizing place with
  | nil =>
      cases inBounds
  | cons item rest inductionHypothesis =>
      rw [List.mapIdx_cons, List.sum_cons]
      cases place with
      | zero =>
          have others :
              (rest.mapIdx fun i _ =>
                  if 0 = i + 1 then amount else 0) =
                rest.mapIdx fun _ _ => 0 := by
            simp
          rw [others, sum_mapIdx_zero]
          simp
      | succ earlier =>
          have below := Nat.lt_of_succ_lt_succ inBounds
          simpa using inductionHypothesis below

/-- A sum can be taken place by place. -/
theorem sum_mapIdx_filter
    {Entry : Type}
    {items : List Item}
    {entries : List Entry}
    {place : Entry → Nat}
    (inBounds : ∀ entry ∈ entries, place entry < items.length)
    (value : Entry → Amount) :
    (items.mapIdx fun i _ =>
        ((entries.filter fun entry => place entry = i).map value).sum).sum =
      (entries.map value).sum := by
  induction entries with
  | nil =>
      exact sum_mapIdx_zero items
  | cons entry rest inductionHypothesis =>
      have later :=
        inductionHypothesis fun other member =>
          inBounds other (List.mem_cons_of_mem _ member)
      have here :=
        sum_mapIdx_single items (value entry)
          (inBounds entry List.mem_cons_self)
      rw [List.map_cons, List.sum_cons, ← later, ← here]
      apply (sum_mapIdx_add _).symm
      intro i item _
      by_cases same : place entry = i
      · simp [same]
      · simp [same]

end Sums

end Reducers
