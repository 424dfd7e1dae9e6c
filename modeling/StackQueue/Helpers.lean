import Mathlib.Data.Nat.Bitwise
import Mathlib.Tactic.Ring

namespace StackQueue

/-!
# Word layout and buffer sizes

The functions of `helpers.rs`, the constants of `lib.rs` and `queue.rs` they
use, and the validation of `buffer_size` by the `local_queue` macro.  Machine
words are natural numbers below `2 ^ bits`; every operation that can leave
that range wraps explicitly.

The buffer is cut into as many regions of equal size as the occupancy word has
counters, on either pointer width.
-/

/-- The pointer widths the crate supports. -/
inductive PointerWidth where
  | w32
  | w64
  deriving Repr, DecidableEq

namespace PointerWidth

/-- The number of bits of `usize`. -/
def bits : PointerWidth → Nat
  | .w32 => 32
  | .w64 => 64

/-- `INDEX_SHIFT`: the position of the index counter within a slot. -/
def indexShift : PointerWidth → Nat
  | .w32 => 16
  | .w64 => 32

/-- `REGION_COUNT`. -/
def regionCount : PointerWidth → Nat
  | .w32 => 4
  | .w64 => 8

/-- `MAX_BUFFER_LEN`: `u16::MAX` or `u32::MAX`. -/
def maxBufferLen : PointerWidth → Nat
  | .w32 => 65535
  | .w64 => 4294967295

end PointerWidth

/-- `PHASE`: the flag bit of a slot. -/
def phaseFlag : Nat := 1

/-- `REGION_MASK`: the eight bits of one region. -/
def regionMaskBits : Nat := 255

/-- `MIN_BUFFER_LEN`. -/
def minBufferLen : Nat := 64

/-- `usize::wrapping_add`, also the arithmetic of an atomic `fetch_add`. -/
def wrappingAdd (width : PointerWidth) (x y : Nat) : Nat :=
  (y + x) % 2 ^ width.bits

/-- The wrapping subtraction of an atomic `fetch_sub`. -/
def wrappingSub (width : PointerWidth) (x y : Nat) : Nat :=
  (x + (2 ^ width.bits - y)) % 2 ^ width.bits

/-- Left shift of a word, discarding the bits shifted off its top. -/
def shiftLeft (width : PointerWidth) (x amount : Nat) : Nat :=
  (x <<< amount) % 2 ^ width.bits

/-- `usize::trailing_zeros`: the width itself for a zero word. -/
def trailingZeros (width : PointerWidth) (x : Nat) : Nat :=
  ((List.range width.bits).find? x.testBit).getD width.bits

/-- `usize::next_power_of_two`. -/
def nextPowerOfTwo (x : Nat) : Nat :=
  if x ≤ 1 then 1 else 2 ^ (Nat.log2 (x - 1) + 1)

/-- The checks `local_queue` makes on its `buffer_size` argument. -/
def checkBufferSize
    (width : PointerWidth)
    (bufferSize : Nat) :
    Except String Nat :=
  if width.maxBufferLen < bufferSize then
    .error ("buffer_size must not exceed " ++ toString width.maxBufferLen)
  else if bufferSize < minBufferLen then
    .error ("buffer_size must be at least " ++ toString minBufferLen)
  else if bufferSize ≠ nextPowerOfTwo bufferSize then
    .error "buffer_size must be a power of 2"
  else
    .ok bufferSize

/-- A buffer size that `local_queue` accepts. -/
structure BufferSize (width : PointerWidth) where
  size : Nat
  accepted : checkBufferSize width size = .ok size

section Helpers

variable (width : PointerWidth) (N : Nat)

/-- `region_size`. -/
def regionSize : Nat :=
  match width with
  | .w64 => N >>> 3
  | .w32 => N >>> 2

/-- `region_shift`. -/
def regionShift : Nat :=
  match width with
  | .w64 => trailingZeros width N - 3
  | .w32 => trailingZeros width N - 2

/-- `current_region`. -/
def currentRegion (index : Nat) : Nat :=
  index >>> regionShift width N

/-- `region_mask`. -/
def regionMask (index : Nat) : Nat :=
  shiftLeft width regionMaskBits
    (currentRegion width N index <<<
      trailingZeros width width.regionCount)

/-- `slot_index`. -/
def slotIndex (slot : Nat) : Nat :=
  slot >>> width.indexShift &&& (N - 1)

/-- `one_shifted`. -/
def oneShifted (index : Nat) : Nat :=
  shiftLeft width 1
    ((index >>> regionShift width N) <<<
      trailingZeros width width.regionCount)

end Helpers

/-! ## Powers of two -/

theorem trailingZeros_two_pow
    {width : PointerWidth}
    {exponent : Nat}
    (fits : exponent < width.bits) :
    trailingZeros width (2 ^ exponent) = exponent := by
  have found :
      (List.range width.bits).find? (2 ^ exponent).testBit =
        some exponent := by
    rw [List.find?_range_eq_some]
    refine ⟨Nat.testBit_two_pow_self, List.mem_range.mpr fits, ?_⟩
    intro earlier below
    simp [Nat.testBit_two_pow_of_ne (Nat.ne_of_gt below)]
  rw [trailingZeros, found]
  rfl

theorem nextPowerOfTwo_isPowerOfTwo (x : Nat) :
    ∃ exponent, nextPowerOfTwo x = 2 ^ exponent := by
  unfold nextPowerOfTwo
  split
  · exact ⟨0, rfl⟩
  · exact ⟨_, rfl⟩

theorem nextPowerOfTwo_two_pow (exponent : Nat) :
    nextPowerOfTwo (2 ^ exponent) = 2 ^ exponent := by
  cases exponent with
  | zero =>
      rfl
  | succ exponent =>
      have positive : 0 < 2 ^ exponent := Nat.two_pow_pos exponent
      have large : ¬ 2 ^ (exponent + 1) ≤ 1 := by
        rw [Nat.pow_succ]
        omega
      have log : Nat.log2 (2 ^ (exponent + 1) - 1) = exponent := by
        rw [Nat.pow_succ] at large ⊢
        rw [Nat.log2_eq_iff (by omega), Nat.pow_succ]
        omega
      rw [nextPowerOfTwo, if_neg large, log]

/-- The macro accepts exactly the powers of two between its two bounds. -/
theorem checkBufferSize_ok_iff
    {width : PointerWidth}
    {bufferSize : Nat} :
    checkBufferSize width bufferSize = .ok bufferSize ↔
      minBufferLen ≤ bufferSize ∧
        bufferSize ≤ width.maxBufferLen ∧
        ∃ exponent, bufferSize = 2 ^ exponent := by
  unfold checkBufferSize
  split
  · simp
    omega
  · split
    · simp
      omega
    · split
      · rename_i notPower
        simp only [reduceCtorEq, false_iff, not_and, not_exists]
        rintro _ _ exponent rfl
        exact notPower (nextPowerOfTwo_two_pow exponent).symm
      · rename_i notAbove notBelow power
        obtain ⟨exponent, shape⟩ := nextPowerOfTwo_isPowerOfTwo bufferSize
        rw [not_not, shape] at power
        exact ⟨fun _ => ⟨by omega, by omega, exponent, power⟩,
          fun _ => rfl⟩

namespace PointerWidth

/-- A slot holds an index counter above as many flag bits. -/
theorem bits_eq (width : PointerWidth) :
    width.bits = width.indexShift + width.indexShift := by
  cases width <;> rfl

theorem maxBufferLen_lt (width : PointerWidth) :
    width.maxBufferLen < 2 ^ width.indexShift := by
  cases width <;> decide

end PointerWidth

namespace BufferSize

variable {width : PointerWidth} (N : BufferSize width)

/-- The exponent of an accepted buffer size. -/
def log : Nat :=
  Nat.log2 N.size

theorem size_eq :
    N.size = 2 ^ N.log := by
  obtain ⟨_, _, exponent, shape⟩ := checkBufferSize_ok_iff.mp N.accepted
  rw [log, shape, Nat.log2_two_pow]

theorem size_pos :
    0 < N.size := by
  rw [N.size_eq]
  exact Nat.two_pow_pos _

theorem minBufferLen_le :
    64 ≤ N.size :=
  (checkBufferSize_ok_iff.mp N.accepted).1

theorem six_le_log :
    6 ≤ N.log := by
  have large := N.minBufferLen_le
  rw [N.size_eq] at large
  by_contra small
  have bound : 2 ^ N.log ≤ 2 ^ 5 :=
    Nat.pow_le_pow_right (by decide) (by omega)
  omega

/-- The accepted size after 1024 is 2048. -/
theorem large_of_not_small
    (above : ¬ N.size ≤ 1024) :
    2048 ≤ N.size := by
  have exponent : 11 ≤ N.log := by
    by_contra small
    have bound : 2 ^ N.log ≤ 2 ^ 10 :=
      Nat.pow_le_pow_right (by decide) (by omega)
    rw [← N.size_eq] at bound
    omega
  rw [N.size_eq]
  exact Nat.pow_le_pow_right (n := 2) (by decide) exponent

theorem log_lt :
    N.log < width.indexShift := by
  have small :=
    Nat.lt_of_le_of_lt (checkBufferSize_ok_iff.mp N.accepted).2.1
      width.maxBufferLen_lt
  rw [N.size_eq] at small
  exact (Nat.pow_lt_pow_iff_right (by decide)).mp small

theorem log_lt_bits :
    N.log < width.bits := by
  have := N.log_lt
  rw [width.bits_eq]
  omega

/-- The index counter runs through whole cycles of the buffer. -/
theorem size_dvd_counter :
    N.size ∣ 2 ^ width.indexShift := by
  rw [N.size_eq]
  exact Nat.pow_dvd_pow 2 (Nat.le_of_lt N.log_lt)

/-- Masking with `N - 1` is reduction modulo the buffer size. -/
theorem and_size_sub_one (x : Nat) :
    x &&& (N.size - 1) = x % N.size := by
  rw [N.size_eq, Nat.and_two_pow_sub_one_eq_mod]

/-- Reducing a counter modulo the buffer size undoes the counter's own wrap. -/
theorem mod_counter_mod (position : Nat) :
    position % 2 ^ width.indexShift % N.size = position % N.size :=
  Nat.mod_mod_of_dvd position N.size_dvd_counter

/-- A buffer of `2 ^ exponent` cells, for an exponent in the accepted range. -/
def ofLog
    (width : PointerWidth)
    (exponent : Nat)
    (large : 6 ≤ exponent)
    (small : exponent < width.indexShift) :
    BufferSize width where
  size := 2 ^ exponent
  accepted := by
    rw [checkBufferSize_ok_iff]
    refine ⟨Nat.pow_le_pow_right (n := 2) (by decide) large, ?_,
      exponent, rfl⟩
    have bound : 2 ^ exponent ≤ 2 ^ (width.indexShift - 1) :=
      Nat.pow_le_pow_right (by decide) (by omega)
    cases width <;>
      simp only [PointerWidth.indexShift, PointerWidth.maxBufferLen]
        at bound ⊢ <;>
      omega

end BufferSize

/-! ## Regions -/

namespace BufferSize

variable {width : PointerWidth} (N : BufferSize width)

/-- The number of regions is a power of two, and its exponent a shift. -/
theorem region_exponents :
    ∃ exponent,
      width.regionCount = 2 ^ exponent ∧
        regionShift width N.size + exponent = N.log ∧
        regionSize width N.size = N.size >>> exponent := by
  have large := N.six_le_log
  have zeros : trailingZeros width N.size = N.log := by
    conv_lhs => rw [N.size_eq]
    exact trailingZeros_two_pow N.log_lt_bits
  cases width with
  | w64 =>
      refine ⟨3, rfl, ?_, rfl⟩
      simp only [regionShift]
      omega
  | w32 =>
      refine ⟨2, rfl, ?_, rfl⟩
      simp only [regionShift]
      omega

theorem regionSize_eq :
    regionSize width N.size = 2 ^ regionShift width N.size := by
  obtain ⟨exponent, _, shift, size⟩ := N.region_exponents
  calc
    regionSize width N.size = N.size / 2 ^ exponent := by
      rw [size, Nat.shiftRight_eq_div_pow]
    _ = 2 ^ N.log / 2 ^ exponent := by
      rw [← N.size_eq]
    _ = 2 ^ regionShift width N.size := by
      rw [← shift, Nat.pow_add]
      exact Nat.mul_div_cancel _ (Nat.two_pow_pos _)

/-- The regions share the buffer equally. -/
theorem regionSize_mul_regionCount :
    regionSize width N.size * width.regionCount = N.size := by
  obtain ⟨exponent, count, shift, _⟩ := N.region_exponents
  calc
    regionSize width N.size * width.regionCount
        = 2 ^ regionShift width N.size * 2 ^ exponent := by
      rw [N.regionSize_eq, count]
    _ = 2 ^ N.log := by
      rw [← Nat.pow_add, shift]
    _ = N.size := N.size_eq.symm

theorem regionSize_positive :
    0 < regionSize width N.size := by
  rw [N.regionSize_eq]
  exact Nat.two_pow_pos _

theorem regionSize_dvd :
    regionSize width N.size ∣ N.size :=
  ⟨width.regionCount, N.regionSize_mul_regionCount.symm⟩

/-- The boundary test of `push` and `enqueue` is divisibility. -/
theorem and_regionSize_sub_one (index : Nat) :
    index &&& (regionSize width N.size - 1) =
      index % regionSize width N.size := by
  rw [N.regionSize_eq, Nat.and_two_pow_sub_one_eq_mod]

theorem and_regionSize_eq_zero_iff (position : Nat) :
    position % N.size &&& (regionSize width N.size - 1) = 0 ↔
      regionSize width N.size ∣ position := by
  rw [N.and_regionSize_sub_one,
    Nat.mod_mod_of_dvd position N.regionSize_dvd,
    Nat.dvd_iff_mod_eq_zero]

theorem currentRegion_eq (index : Nat) :
    currentRegion width N.size index =
      index / regionSize width N.size := by
  rw [currentRegion, Nat.shiftRight_eq_div_pow, N.regionSize_eq]

/-- An index of the buffer lies in one of the regions. -/
theorem currentRegion_lt
    {index : Nat}
    (inBuffer : index < N.size) :
    currentRegion width N.size index < width.regionCount := by
  rw [N.currentRegion_eq, Nat.div_lt_iff_lt_mul N.regionSize_positive,
    Nat.mul_comm, N.regionSize_mul_regionCount]
  exact inBuffer

end BufferSize

namespace BufferSize

variable (N : BufferSize .w64)

/-- On a 64-bit target eight regions share the buffer. -/
theorem eight_mul_regionSize :
    8 * regionSize .w64 N.size = N.size := by
  rw [Nat.mul_comm]
  exact N.regionSize_mul_regionCount

theorem eight_le_regionSize :
    8 ≤ regionSize .w64 N.size := by
  have := N.eight_mul_regionSize
  have := N.minBufferLen_le
  omega

end BufferSize

end StackQueue
