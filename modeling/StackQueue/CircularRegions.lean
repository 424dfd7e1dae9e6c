import Mathlib.Data.List.Range
import Mathlib.Data.List.Perm.Subperm
import Mathlib.Algebra.Order.Ring.Nat

namespace CircularRegions

/-!
# Regions of a circular buffer

A circular buffer of `regions * size` cells is cut into regions of `size`
cells each.  Positions are counted without wrap-around, so a region comes
round once in every lap; the positions of one of its turns form a stretch.

A window that began in some stretch is used up one buffer after the beginning
of that stretch.  Before that, a region that is written to holds positions of
its current stretch only.
-/

/-- The region of the cell that a position is written to. -/
def regionOf (regions size position : Nat) : Nat :=
  position / size % regions

/-- The first position of the stretch around a position. -/
def stretchStart (size position : Nat) : Nat :=
  position / size * size

variable {regions size : Nat}

theorem regionOf_lt
    (positive : 0 < regions)
    (position : Nat) :
    regionOf regions size position < regions :=
  Nat.mod_lt _ positive

/-- The region of an index of the buffer is that of its position. -/
theorem mod_div_eq_regionOf (position : Nat) :
    position % (size * regions) / size =
      regionOf regions size position :=
  Nat.mod_mul_right_div_self position size regions

theorem stretchStart_le (position : Nat) :
    stretchStart size position ≤ position :=
  Nat.div_mul_le_self _ _

theorem lt_stretchStart_add
    (positive : 0 < size)
    (position : Nat) :
    position < stretchStart size position + size :=
  Nat.lt_div_mul_add positive

/-- A window is used up at the beginning of a stretch of its own region. -/
theorem window_end
    (positive : 0 < size)
    {position start : Nat}
    (atEnd : position = stretchStart size start + size * regions) :
    size ∣ position ∧
      regionOf regions size position = regionOf regions size start := by
  have multiple : position = size * (start / size + regions) := by
    rw [atEnd, stretchStart, Nat.mul_add, Nat.mul_comm (start / size)]
  constructor
  · exact ⟨_, multiple⟩
  · rw [regionOf, multiple, Nat.mul_div_cancel_left _ positive,
      Nat.add_mod_right, regionOf]

/-- Within the window, positions of one region are of one stretch. -/
theorem same_stretch
    (positive : 0 < size)
    {position start : Nat}
    (earlier : start ≤ position)
    (window : position < stretchStart size start + size * regions)
    (sameRegion :
      regionOf regions size start = regionOf regions size position) :
    stretchStart size position ≤ start := by
  have upper : position / size < start / size + regions := by
    rw [Nat.div_lt_iff_lt_mul positive, Nat.add_mul,
      Nat.mul_comm regions]
    exact window
  have lower : start / size ≤ position / size :=
    Nat.div_le_div_right earlier
  have quotients : start / size = position / size := by
    have difference :=
      Nat.sub_mod_eq_zero_of_mod_eq sameRegion.symm
    rw [Nat.mod_eq_of_lt (by omega)] at difference
    omega
  calc
    stretchStart size position = stretchStart size start := by
      rw [stretchStart, stretchStart, quotients]
    _ ≤ start := stretchStart_le start

/-- How many of the given positions lie in a region. -/
def load
    (regions size : Nat)
    (starts : List Nat)
    (region : Nat) :
    Nat :=
  starts.countP fun position => regionOf regions size position == region

theorem load_perm
    {starts others : List Nat}
    (same : starts.Perm others)
    (region : Nat) :
    load regions size starts region = load regions size others region :=
  same.countP_eq _

theorem load_cons
    (start : Nat)
    (starts : List Nat)
    (region : Nat) :
    load regions size (start :: starts) region =
      load regions size starts region +
        if regionOf regions size start = region then 1 else 0 := by
  simp [load, List.countP_cons]

theorem load_eq_zero_iff
    {starts : List Nat}
    {region : Nat} :
    load regions size starts region = 0 ↔
      ∀ start ∈ starts, regionOf regions size start ≠ region := by
  simp [load, List.countP_eq_zero]

theorem load_eq_zero
    {starts : List Nat}
    {region : Nat}
    (empty : load regions size starts region = 0) :
    ∀ start ∈ starts, regionOf regions size start ≠ region :=
  load_eq_zero_iff.mp empty

/-- Earlier positions of the window leave out a cell of a region. -/
theorem load_lt
    (positive : 0 < size)
    {starts : List Nat}
    {position : Nat}
    (distinct : starts.Nodup)
    (earlier : ∀ start ∈ starts, start < position)
    (window :
      ∀ start ∈ starts,
        position < stretchStart size start + size * regions) :
    load regions size starts (regionOf regions size position) < size := by
  let inRegion :=
    starts.filter fun start =>
      regionOf regions size start == regionOf regions size position
  have contained :
      inRegion ⊆
        List.range' (stretchStart size position)
          (position - stretchStart size position) := by
    intro start member
    obtain ⟨isStart, region⟩ := List.mem_filter.mp member
    have before := earlier start isStart
    have stretch :=
      same_stretch positive (Nat.le_of_lt before) (window start isStart)
        (by simpa using region)
    rw [List.mem_range'_1]
    omega
  have inRegionOnce : inRegion.Nodup := distinct.filter _
  have bound := (inRegionOnce.subperm contained).length_le
  rw [List.length_range'] at bound
  have here := lt_stretchStart_add positive position
  have below : stretchStart size position ≤ position :=
    stretchStart_le position
  rw [load, List.countP_eq_length_filter]
  change inRegion.length < size
  omega

/-! ## From one region to the next -/

/-- The region of the position before a given one, in a lap later. -/
def lastRegion (regions size position : Nat) : Nat :=
  regionOf regions size (position + (size * regions - 1))

/-- After a position is used, its region is the last one. -/
theorem lastRegion_succ
    (positive : 0 < size)
    (someRegion : 0 < regions)
    (position : Nat) :
    lastRegion regions size (position + 1) =
      regionOf regions size position := by
  have cells : 0 < size * regions := Nat.mul_pos positive someRegion
  have lap :
      position + 1 + (size * regions - 1) =
        position + size * regions := by
    omega
  rw [lastRegion, lap, regionOf, Nat.add_mul_div_left _ _ positive,
    Nat.add_mod_right, regionOf]

/-- Inside a stretch the region stays. -/
theorem regionOf_inside
    (positive : 0 < size)
    (someRegion : 0 < regions)
    {position : Nat}
    (inside : ¬ size ∣ position) :
    regionOf regions size position =
      lastRegion regions size position := by
  obtain ⟨earlier, successor⟩ :
      ∃ earlier, position = earlier + 1 :=
    Nat.exists_eq_succ_of_ne_zero fun zero =>
      inside (zero ▸ Nat.dvd_zero size)
  subst successor
  rw [lastRegion_succ positive someRegion, regionOf,
    Nat.succ_div_of_not_dvd inside, regionOf]

/-- At a boundary the next region begins. -/
theorem regionOf_boundary
    (positive : 0 < size)
    (someRegion : 0 < regions)
    {position : Nat}
    (boundary : size ∣ position) :
    regionOf regions size position =
      (lastRegion regions size position + 1) % regions := by
  obtain ⟨stretch, shape⟩ := boundary
  subst shape
  have cells : 0 < size * regions := Nat.mul_pos positive someRegion
  have last :
      size * stretch + (size * regions - 1) =
        size * (stretch + (regions - 1)) + (size - 1) := by
    obtain ⟨more, shape⟩ : ∃ more, regions = more + 1 :=
      Nat.exists_eq_succ_of_ne_zero (Nat.ne_of_gt someRegion)
    subst shape
    rw [Nat.add_sub_cancel, Nat.mul_add, Nat.mul_add, Nat.mul_one]
    omega
  have quotient :
      (size * (stretch + (regions - 1)) + (size - 1)) / size =
        stretch + (regions - 1) := by
    rw [Nat.mul_add_div positive, Nat.div_eq_of_lt (by omega),
      Nat.add_zero]
  rw [regionOf, Nat.mul_div_cancel_left _ positive, lastRegion, last,
    regionOf, quotient, Nat.mod_add_mod]
  have around : stretch + (regions - 1) + 1 = stretch + regions := by
    omega
  rw [around, Nat.add_mod_right]

end CircularRegions
