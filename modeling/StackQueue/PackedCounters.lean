import Mathlib.Algebra.BigOperators.Intervals
import Mathlib.Data.Nat.Bitwise
import Mathlib.Tactic.Positivity
import Mathlib.Tactic.Ring

namespace PackedCounters

/-!
# Counters packed into the fields of one word

A word is read as a row of fields of `width` bits each, field `r` starting at
bit `width * r`.  `pack` writes a counter into every field and `field` reads
one back.  As long as every counter stays below `2 ^ width`, reading returns
what was packed, and adding one field unit changes that field alone.
-/

/-- The word with the value one in field `r`. -/
def unit (width r : Nat) : Nat :=
  2 ^ (width * r)

/-- The content of field `r` of a word. -/
def field (width r word : Nat) : Nat :=
  word / unit width r % 2 ^ width

/-- The word whose first `fields` fields hold `count`. -/
def pack (width fields : Nat) (count : Nat → Nat) : Nat :=
  ∑ r ∈ Finset.range fields, count r * unit width r

theorem unit_pos (width r : Nat) :
    0 < unit width r := by
  unfold unit
  positivity

theorem unit_succ (width r : Nat) :
    unit width (r + 1) = unit width r * 2 ^ width := by
  rw [unit, unit, Nat.mul_succ, Nat.pow_add]

/-- A field unit divides every unit above it. -/
theorem unit_dvd_unit
    (width : Nat)
    {r q : Nat}
    (below : r ≤ q) :
    unit width r ∣ unit width q :=
  Nat.pow_dvd_pow 2 (Nat.mul_le_mul_left width below)

/-- The `width` bits of a word that begin where field `r` of `stride` does. -/
def read (stride width r word : Nat) : Nat :=
  word / unit stride r % 2 ^ width

/-- A mask of any width reads the bits at its position. -/
theorem and_shifted_mask (stride width r word : Nat) :
    word &&& ((2 ^ width - 1) <<< (stride * r)) =
      read stride width r word * unit stride r := by
  have split :
      word &&& ((2 ^ width - 1) <<< (stride * r)) =
        ((word >>> (stride * r)) &&& (2 ^ width - 1)) <<<
          (stride * r) := by
    apply Nat.eq_of_testBit_eq
    intro bit
    by_cases above : stride * r ≤ bit
    · simp [Nat.testBit_and, Nat.testBit_shiftLeft,
        Nat.testBit_shiftRight, above, Nat.add_sub_cancel' above,
        Bool.and_comm]
    · simp [Nat.testBit_and, Nat.testBit_shiftLeft, above]
  rw [split, Nat.and_two_pow_sub_one_eq_mod,
    Nat.shiftRight_eq_div_pow, Nat.shiftLeft_eq]
  rfl

theorem pack_zero (width : Nat) (count : Nat → Nat) :
    pack width 0 count = 0 := by
  simp [pack]

theorem pack_succ (width fields : Nat) (count : Nat → Nat) :
    pack width (fields + 1) count =
      pack width fields count + count fields * unit width fields := by
  rw [pack, Finset.sum_range_succ]
  rfl

/-- The upper fields of a word are a word of their own. -/
theorem pack_add (width lower upper : Nat) (count : Nat → Nat) :
    pack width (lower + upper) count =
      pack width lower count +
        unit width lower *
          pack width upper fun r => count (lower + r) := by
  induction upper with
  | zero =>
      rw [Nat.add_zero, pack_zero, Nat.mul_zero, Nat.add_zero]
  | succ upper inductionHypothesis =>
      have units :
          unit width (lower + upper) =
            unit width lower * unit width upper := by
        rw [unit, unit, unit, Nat.mul_add, Nat.pow_add]
      rw [← Nat.add_assoc, pack_succ, inductionHypothesis, pack_succ, units]
      ring

/-- What is read at a field, with all that the other fields contribute. -/
theorem read_pack
    (stride width lower upper : Nat)
    (count : Nat → Nat) :
    read stride width lower (pack stride (lower + upper) count) =
      (pack stride lower count / unit stride lower +
          pack stride upper fun r => count (lower + r)) %
        2 ^ width := by
  rw [read, pack_add, Nat.add_mul_div_left _ _ (unit_pos stride lower)]

/-- Counters that fit their fields make a word that fits the fields together. -/
theorem pack_lt
    {width fields : Nat}
    {count : Nat → Nat}
    (fits : ∀ r, r < fields → count r < 2 ^ width) :
    pack width fields count < unit width fields := by
  induction fields with
  | zero =>
      simp [pack_zero, unit]
  | succ fields inductionHypothesis =>
      have lower :
          pack width fields count < unit width fields :=
        inductionHypothesis fun r below =>
          fits r (Nat.lt_succ_of_lt below)
      have top : count fields + 1 ≤ 2 ^ width :=
        fits fields (Nat.lt_succ_self fields)
      calc
        pack width (fields + 1) count
            < unit width fields + count fields * unit width fields := by
          rw [pack_succ]
          omega
        _ = (count fields + 1) * unit width fields := by ring
        _ ≤ 2 ^ width * unit width fields :=
          Nat.mul_le_mul_right _ top
        _ = unit width (fields + 1) := by
          rw [unit_succ, Nat.mul_comm]

/-- Reading a field returns the counter packed into it. -/
theorem field_pack
    {width fields : Nat}
    {count : Nat → Nat}
    (fits : ∀ r, r < fields → count r < 2 ^ width)
    {r : Nat}
    (below : r < fields) :
    field width r (pack width fields count) = count r := by
  induction fields with
  | zero =>
      exact absurd below (Nat.not_lt_zero r)
  | succ fields inductionHypothesis =>
      have lowerFits : ∀ q, q < fields → count q < 2 ^ width :=
        fun q small => fits q (Nat.lt_succ_of_lt small)
      rw [pack_succ, field]
      rcases Nat.lt_succ_iff_lt_or_eq.mp below with inLower | isTop
      · obtain ⟨quotient, quotientShape⟩ :=
          unit_dvd_unit width (Nat.succ_le_of_lt inLower)
        have shifted :
            count fields * unit width fields =
              unit width r * (2 ^ width * (count fields * quotient)) := by
          rw [quotientShape, Nat.succ_eq_add_one, unit_succ]
          ring
        rw [shifted, Nat.add_mul_div_left _ _ (unit_pos width r),
          Nat.add_mul_mod_self_left]
        exact inductionHypothesis lowerFits inLower
      · subst r
        rw [Nat.add_mul_div_right _ _ (unit_pos width fields),
          Nat.div_eq_of_lt (pack_lt lowerFits), Nat.zero_add]
        exact Nat.mod_eq_of_lt (fits fields below)

/-- Raising one counter by one adds its field unit to the word. -/
theorem pack_increment
    {width fields : Nat}
    {count other : Nat → Nat}
    {r : Nat}
    (below : r < fields)
    (raised : other r = count r + 1)
    (same : ∀ q, q ≠ r → other q = count q) :
    pack width fields other =
      pack width fields count + unit width r := by
  have member : r ∈ Finset.range fields :=
    Finset.mem_range.mpr below
  unfold pack
  rw [← Finset.add_sum_erase _ _ member,
    ← Finset.add_sum_erase (f := fun q => count q * unit width q)
      _ member]
  have rest :
      ∑ q ∈ (Finset.range fields).erase r, other q * unit width q =
        ∑ q ∈ (Finset.range fields).erase r, count q * unit width q := by
    refine Finset.sum_congr rfl fun q inErase => ?_
    rw [same q (Finset.ne_of_mem_erase inErase)]
  rw [rest, raised]
  ring

end PackedCounters
