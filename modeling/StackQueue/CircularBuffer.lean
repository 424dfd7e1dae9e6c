import Mathlib.Data.List.Nodup

namespace CircularBuffer

/-!
# Windows of a circular buffer

Positions are counted without wrap-around and position `p` lives at index
`p % size`.  `slices` cuts a circular stretch, given by the indices of its
ends, into the part up to the end of the buffer and the part from its
beginning.  For a window of at least one and at most `size` positions the two
parts list the window in order; a full window, whose ends have the same
index, is no exception.
-/

/-- The indices from `start` up to `stop`, around the end of the buffer. -/
def slices (size start stop : Nat) : List Nat × List Nat :=
  if start < stop then
    (List.range' start (stop - start), [])
  else
    (List.range' start (size - start), List.range stop)

/-- The indices of a window of positions. -/
def window (size first last : Nat) : List Nat :=
  (List.range' first (last - first)).map (· % size)

theorem length_window (size first last : Nat) :
    (window size first last).length = last - first := by
  simp [window]

/-- Positions less than one buffer apart have different indices. -/
theorem mod_ne_of_window
    {size position next : Nat}
    (before : position < next)
    (near : next < position + size) :
    position % size ≠ next % size := by
  intro same
  have multiple := Nat.sub_mod_eq_zero_of_mod_eq same.symm
  rw [Nat.mod_eq_of_lt (by omega)] at multiple
  omega

/-- A window of at most one lap has each index once. -/
theorem window_nodup
    {size first last : Nat}
    (near : last ≤ first + size) :
    (window size first last).Nodup := by
  refine List.Nodup.map_on ?_ List.nodup_range'
  intro i iMember j jMember sameIndex
  rw [List.mem_range'_1] at iMember jMember
  rcases Nat.lt_trichotomy i j with before | same | later
  · exact (mod_ne_of_window before (by omega) sameIndex).elim
  · exact same
  · exact (mod_ne_of_window later (by omega) sameIndex.symm).elim

/-- Positions of one lap keep their order. -/
theorem map_mod_range'
    {size offset count : Nat}
    (lap : Nat)
    (fits : offset + count ≤ size) :
    (List.range' (size * lap + offset) count).map (· % size) =
      List.range' offset count := by
  apply List.ext_getElem
  · simp
  · intro i inMapped inRange
    have below : i < count := by simpa using inRange
    simp only [List.getElem_map, List.getElem_range', Nat.one_mul]
    rw [Nat.add_assoc, Nat.mul_add_mod]
    exact Nat.mod_eq_of_lt (by omega)

/-- The two slices of a window list its positions in order. -/
theorem slices_eq_window
    {size first last : Nat}
    (nonempty : first < last)
    (near : last ≤ first + size) :
    (slices size (first % size) (last % size)).1 ++
        (slices size (first % size) (last % size)).2 =
      window size first last := by
  have positive : 0 < size := by omega
  have startBelow := Nat.mod_lt first positive
  have stopBelow := Nat.mod_lt last positive
  have startSplit := Nat.div_add_mod first size
  have stopSplit := Nat.div_add_mod last size
  generalize first % size = start at startBelow startSplit ⊢
  generalize last % size = stop at stopBelow stopSplit ⊢
  generalize first / size = lap at startSplit
  generalize last / size = lastLap at stopSplit
  subst startSplit stopSplit
  have later : lap ≤ lastLap := by
    by_contra earlier
    have := Nat.mul_le_mul_left size (Nat.lt_of_not_le earlier)
    rw [Nat.mul_succ] at this
    omega
  have nextLap : lastLap ≤ lap + 1 := by
    by_contra beyond
    have := Nat.mul_le_mul_left size (Nat.lt_of_not_le beyond)
    rw [Nat.mul_succ, Nat.mul_succ] at this
    omega
  rcases Nat.eq_or_lt_of_le later with sameLap | wrapped
  · subst sameLap
    have forward : start < stop := by omega
    have length :
        size * lap + stop - (size * lap + start) = stop - start := by
      omega
    rw [slices, if_pos forward, List.append_nil, window, length,
      map_mod_range' lap (by omega)]
  · have oneMore : lastLap = lap + 1 := by omega
    subst oneMore
    rw [Nat.mul_succ] at nonempty near ⊢
    have backward : ¬ start < stop := by omega
    have length :
        size * lap + size + stop - (size * lap + start) =
          (size - start) + stop := by
      omega
    have boundary :
        size * lap + start + (size - start) = size * (lap + 1) + 0 := by
      rw [Nat.mul_succ]
      omega
    rw [slices, if_neg backward, window, length,
      ← List.range'_append_1, List.map_append,
      map_mod_range' lap (by omega), boundary,
      map_mod_range' (lap + 1) (by omega), List.range_eq_range']

/-- A window extended by one position. -/
theorem window_cons
    {size first last : Nat}
    (nonempty : first < last) :
    window size first last =
      first % size :: window size (first + 1) last := by
  have length : last - first = (last - (first + 1)) + 1 := by omega
  rw [window, length, List.range'_succ, List.map_cons, window]

/-- Windows from the same index have the same indices. -/
theorem window_of_mod_eq
    {size first other : Nat}
    (count : Nat)
    (same : first % size = other % size) :
    window size first (first + count) =
      window size other (other + count) := by
  rw [window, window, Nat.add_sub_cancel_left, Nat.add_sub_cancel_left,
    List.range'_eq_map_range, List.range'_eq_map_range, List.map_map,
    List.map_map]
  refine List.map_congr_left fun i _ => ?_
  change (first + i) % size = (other + i) % size
  rw [Nat.add_mod, same, ← Nat.add_mod]

/-- The window is used up exactly at its end. -/
theorem window_eq_nil_iff
    {size first last : Nat} :
    window size first last = [] ↔ last ≤ first := by
  simp [window, Nat.sub_eq_zero_iff_le]

end CircularBuffer
