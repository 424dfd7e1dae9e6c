import Mathlib.Data.List.Basic

namespace IntervalChain

/-!
# Chains of consecutive intervals

A chain from `start` to `stop` is a list of non-empty half-open intervals of
positions, the first beginning at `start`, each next one where the previous
one ends, and the last ending at `stop`.  Every position between the two ends
then lies in exactly one interval, and cutting a sequence along the chain and
joining the pieces gives the sequence back.
-/

/-- The positions from `first` up to but not including `last`. -/
structure Interval where
  first : Nat
  last : Nat
  deriving Repr, DecidableEq

/-- The positions an interval covers. -/
def Interval.Covers (interval : Interval) (position : Nat) : Prop :=
  interval.first ≤ position ∧ position < interval.last

/-- Consecutive non-empty intervals from `start` to `stop`. -/
def Chain : Nat → List Interval → Nat → Prop
  | start, [], stop => start = stop
  | start, interval :: rest, stop =>
      interval.first = start ∧
        interval.first < interval.last ∧
        Chain interval.last rest stop

/-- A chain splits at every point of its list. -/
theorem chain_append
    {start stop : Nat}
    {leading trailing : List Interval} :
    Chain start (leading ++ trailing) stop ↔
      ∃ middle,
        Chain start leading middle ∧ Chain middle trailing stop := by
  induction leading generalizing start with
  | nil =>
      simp [Chain]
  | cons interval rest inductionHypothesis =>
      simp only [List.cons_append, Chain, inductionHypothesis]
      constructor
      · rintro ⟨starts, nonempty, middle, leads, trails⟩
        exact ⟨middle, ⟨starts, nonempty, leads⟩, trails⟩
      · rintro ⟨middle, ⟨starts, nonempty, leads⟩, trails⟩
        exact ⟨starts, nonempty, middle, leads, trails⟩

/-- The last interval of a chain ends where the chain ends. -/
theorem chain_concat
    {start stop : Nat}
    {leading : List Interval}
    {interval : Interval} :
    Chain start (leading ++ [interval]) stop ↔
      Chain start leading interval.first ∧
        interval.first < interval.last ∧
        interval.last = stop := by
  rw [chain_append]
  constructor
  · rintro ⟨middle, leads, starts, nonempty, ends⟩
    subst starts
    exact ⟨leads, nonempty, ends⟩
  · rintro ⟨leads, nonempty, ends⟩
    exact ⟨interval.first, leads, rfl, nonempty, ends⟩

namespace Chain

variable
    {start stop : Nat}
    {intervals : List Interval}

theorem start_le_stop
    (chain : Chain start intervals stop) :
    start ≤ stop := by
  induction intervals generalizing start with
  | nil =>
      exact Nat.le_of_eq chain
  | cons interval rest inductionHypothesis =>
      obtain ⟨starts, nonempty, later⟩ := chain
      have := inductionHypothesis later
      omega

/-- Every interval of a chain is non-empty and lies between its ends. -/
theorem bounds
    (chain : Chain start intervals stop)
    {interval : Interval}
    (member : interval ∈ intervals) :
    start ≤ interval.first ∧
      interval.first < interval.last ∧
      interval.last ≤ stop := by
  obtain ⟨leading, trailing, shape⟩ := List.append_of_mem member
  subst shape
  obtain ⟨middle, leads, starts, nonempty, trails⟩ :=
    chain_append.mp chain
  have := start_le_stop leads
  have := start_le_stop trails
  omega

/-- The intervals of a chain begin at increasing positions. -/
theorem firsts_increasing
    (chain : Chain start intervals stop) :
    (intervals.map Interval.first).Pairwise (· < ·) := by
  induction intervals generalizing start with
  | nil =>
      exact List.Pairwise.nil
  | cons interval rest inductionHypothesis =>
      obtain ⟨_, nonempty, tail⟩ := chain
      rw [List.map_cons, List.pairwise_cons]
      refine ⟨fun first member => ?_, inductionHypothesis tail⟩
      obtain ⟨later, inRest, shape⟩ := List.mem_map.mp member
      subst shape
      exact Nat.lt_of_lt_of_le nonempty (tail.bounds inRest).1

/-- An interval ends no later than any interval after it begins. -/
theorem ordered
    (chain : Chain start intervals stop)
    {i j : Nat}
    {earlier later : Interval}
    (atEarlier : intervals[i]? = some earlier)
    (atLater : intervals[j]? = some later)
    (before : i < j) :
    earlier.last ≤ later.first := by
  induction intervals generalizing start i j with
  | nil =>
      simp at atEarlier
  | cons interval rest inductionHypothesis =>
      obtain ⟨_, _, tail⟩ := chain
      obtain ⟨j, rfl⟩ := Nat.exists_eq_add_one_of_ne_zero
        (Nat.ne_zero_of_lt before)
      rw [List.getElem?_cons_succ] at atLater
      cases i with
      | zero =>
          simp only [List.getElem?_cons_zero, Option.some.injEq]
            at atEarlier
          subst atEarlier
          exact (tail.bounds (List.mem_of_getElem? atLater)).1
      | succ i =>
          rw [List.getElem?_cons_succ] at atEarlier
          exact inductionHypothesis tail atEarlier atLater
            (Nat.lt_of_succ_lt_succ before)

/-- Neighbouring intervals meet. -/
theorem consecutive
    (chain : Chain start intervals stop)
    {i : Nat}
    {earlier later : Interval}
    (atEarlier : intervals[i]? = some earlier)
    (atLater : intervals[i + 1]? = some later) :
    earlier.last = later.first := by
  induction intervals generalizing start i with
  | nil =>
      simp at atEarlier
  | cons interval rest inductionHypothesis =>
      obtain ⟨_, _, tail⟩ := chain
      rw [List.getElem?_cons_succ] at atLater
      cases i with
      | zero =>
          simp only [List.getElem?_cons_zero, Option.some.injEq]
            at atEarlier
          subst atEarlier
          cases rest with
          | nil =>
              simp at atLater
          | cons next rest =>
              simp only [List.getElem?_cons_zero, Option.some.injEq]
                at atLater
              subst atLater
              exact tail.1.symm
      | succ i =>
          rw [List.getElem?_cons_succ] at atEarlier
          exact inductionHypothesis tail atEarlier atLater

/-- Every position between the ends of a chain lies in one of its intervals. -/
theorem exists_covers
    (chain : Chain start intervals stop)
    {position : Nat}
    (fromStart : start ≤ position)
    (beforeStop : position < stop) :
    ∃ (i : Nat) (interval : Interval),
      intervals[i]? = some interval ∧ interval.Covers position := by
  induction intervals generalizing start with
  | nil =>
      have ends : start = stop := chain
      omega
  | cons interval rest inductionHypothesis =>
      obtain ⟨starts, nonempty, tail⟩ := chain
      by_cases inside : position < interval.last
      · exact ⟨0, interval, rfl, by omega, inside⟩
      · obtain ⟨i, found, atFound, covers⟩ :=
          inductionHypothesis tail (Nat.le_of_not_lt inside)
        exact ⟨i + 1, found, by simpa using atFound, covers⟩

/-- No position lies in two intervals of a chain. -/
theorem covers_unique
    (chain : Chain start intervals stop)
    {i j : Nat}
    {first second : Interval}
    {position : Nat}
    (atFirst : intervals[i]? = some first)
    (atSecond : intervals[j]? = some second)
    (firstCovers : first.Covers position)
    (secondCovers : second.Covers position) :
    i = j := by
  rcases Nat.lt_trichotomy i j with before | same | after
  · have := chain.ordered atFirst atSecond before
    have := firstCovers.2
    have := secondCovers.1
    omega
  · exact same
  · have := chain.ordered atSecond atFirst after
    have := secondCovers.2
    have := firstCovers.1
    omega

end Chain

section Slices

variable {Item : Type*}

/-- The items of a sequence at the positions of an interval. -/
def slice (items : List Item) (interval : Interval) : List Item :=
  (items.drop interval.first).take (interval.last - interval.first)

theorem getElem?_slice
    (items : List Item)
    (interval : Interval)
    (offset : Nat) :
    (slice items interval)[offset]? =
      if offset < interval.last - interval.first then
        items[interval.first + offset]?
      else
        none := by
  simp only [slice, List.getElem?_take, List.getElem?_drop]

/-- New items at the end do not change the slices before it. -/
theorem slice_append
    {items : List Item}
    {interval : Interval}
    (within : interval.last ≤ items.length)
    (newest : List Item) :
    slice (items ++ newest) interval = slice items interval := by
  apply List.ext_getElem?
  intro offset
  rw [getElem?_slice, getElem?_slice]
  split
  · rw [List.getElem?_append_left (by omega)]
  · rfl

/-- A slice that ends earlier is a prefix. -/
theorem slice_prefix_of_le
    (items : List Item)
    {first stop last : Nat}
    (upTo : stop ≤ last) :
    slice items ⟨first, stop⟩ <+: slice items ⟨first, last⟩ :=
  List.take_prefix_take_left (Nat.sub_le_sub_right upTo first)

/-- A slice extended by one position. -/
theorem slice_concat
    {items : List Item}
    {first position : Nat}
    {item : Item}
    (begun : first ≤ position)
    (found : items[position]? = some item) :
    slice items ⟨first, position + 1⟩ =
      slice items ⟨first, position⟩ ++ [item] := by
  have length : position + 1 - first = (position - first) + 1 := by
    omega
  have next : (items.drop first)[position - first]? = some item := by
    rw [List.getElem?_drop, Nat.add_sub_cancel' begun, found]
  simp only [slice]
  rw [length, List.take_add_one, next]
  rfl

/-- The slices along a chain, joined, are the stretch the chain spans. -/
theorem flatten_slices_between
    {start stop : Nat}
    {intervals : List Interval}
    (chain : Chain start intervals stop)
    (items : List Item) :
    (intervals.map (slice items)).flatten =
      slice items ⟨start, stop⟩ := by
  induction intervals generalizing start with
  | nil =>
      have ends : start = stop := chain
      simp [slice, ends]
  | cons interval rest inductionHypothesis =>
      obtain ⟨starts, nonempty, tail⟩ := chain
      have ends := tail.start_le_stop
      rw [List.map_cons, List.flatten_cons, inductionHypothesis tail]
      subst starts
      have width :
          stop - interval.first =
            (interval.last - interval.first) +
              (stop - interval.last) := by
        omega
      have skip :
          interval.first + (interval.last - interval.first) =
            interval.last := by
        omega
      simp only [slice]
      rw [width, List.take_add, List.drop_drop, skip]

end Slices

end IntervalChain
