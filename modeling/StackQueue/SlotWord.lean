import StackQueue.Helpers

namespace StackQueue

/-!
# Slot words

A slot carries the index counter in its upper half and the phase in its lowest
bit.  `encodeSlot` is the slot word after a number of accepted tasks; the
lemmas say what each operation on slots does to the encoded position and
phase.  The position is unbounded, so the wrap of the counter is part of the
encoding.
-/

/-- The slot word of a position, counted without wrap-around, and a phase. -/
def encodeSlot
    (width : PointerWidth)
    (position : Nat)
    (phase : Bool) : Nat :=
  position % 2 ^ width.indexShift * 2 ^ width.indexShift + phase.toNat

/-- The phase bit of a slot word. -/
def phaseOf (slot : Nat) : Bool :=
  slot % 2 == 1

variable {width : PointerWidth}

/-- The flag bits below the index counter leave room for the phase. -/
private theorem counter_even (width : PointerWidth) :
    2 ∣ 2 ^ width.indexShift := by
  cases width <;> decide

private theorem phase_lt_counter
    (width : PointerWidth)
    (phase : Bool) :
    phase.toNat < 2 ^ width.indexShift := by
  cases width <;> cases phase <;> decide

/-- The phase is the lowest bit of an otherwise even word. -/
private theorem encodeSlot_eq_double
    (width : PointerWidth)
    (position : Nat) :
    ∃ half,
      ∀ phase : Bool,
        encodeSlot width position phase = 2 * half + phase.toNat := by
  obtain ⟨half, halfShape⟩ := counter_even width
  refine ⟨position % 2 ^ width.indexShift * half, fun phase => ?_⟩
  have evenPart :
      position % 2 ^ width.indexShift * 2 ^ width.indexShift =
        2 * (position % 2 ^ width.indexShift * half) := by
    conv_lhs => rw [Nat.mul_comm]
    conv_lhs => lhs; rw [halfShape]
    ring
  rw [encodeSlot, evenPart]

private theorem encodeSlot_mod_two
    (position : Nat)
    (phase : Bool) :
    encodeSlot width position phase % 2 = phase.toNat := by
  obtain ⟨half, shape⟩ := encodeSlot_eq_double width position
  have small : phase.toNat < 2 := Bool.toNat_lt phase
  rw [shape phase]
  omega

@[simp] theorem phaseOf_encodeSlot
    (position : Nat)
    (phase : Bool) :
    phaseOf (encodeSlot width position phase) = phase := by
  rw [phaseOf, encodeSlot_mod_two]
  cases phase <;> rfl

/-- Adding one to the index counter accepts one position. -/
@[simp] theorem wrappingAdd_encodeSlot
    (position : Nat)
    (phase : Bool) :
    wrappingAdd width (encodeSlot width position phase)
        (1 <<< width.indexShift) =
      encodeSlot width (position + 1) phase := by
  have small := phase_lt_counter width phase
  have positive : 0 < 2 ^ width.indexShift := Nat.two_pow_pos _
  have advanced :
      encodeSlot width position phase + 1 <<< width.indexShift =
        phase.toNat +
          2 ^ width.indexShift *
            (position % 2 ^ width.indexShift + 1) := by
    rw [Nat.shiftLeft_eq, encodeSlot]
    ring
  rw [wrappingAdd, Nat.add_comm, advanced, width.bits_eq, Nat.pow_add,
    Nat.mod_mul, Nat.add_mul_mod_self_left, Nat.mod_eq_of_lt small,
    Nat.add_mul_div_left _ _ positive, Nat.div_eq_of_lt small,
    Nat.zero_add, Nat.mod_add_mod, encodeSlot]
  ring

/-- Toggling the phase leaves the position alone. -/
@[simp] theorem encodeSlot_xor_phase
    (position : Nat)
    (phase : Bool) :
    encodeSlot width position phase ^^^ phaseFlag =
      encodeSlot width position (!phase) := by
  obtain ⟨half, shape⟩ := encodeSlot_eq_double width position
  have high :
      (encodeSlot width position phase ^^^ 1) / 2 =
        encodeSlot width position phase / 2 := by
    simpa using
      Nat.xor_div_two_pow (a := encodeSlot width position phase)
        (b := 1) (n := 1)
  have low :
      (encodeSlot width position phase ^^^ 1) % 2 =
        encodeSlot width position phase % 2 ^^^ 1 := by
    simpa using
      Nat.xor_mod_two_pow (a := encodeSlot width position phase)
        (b := 1) (n := 1)
  have flipped : phase.toNat ^^^ 1 = (!phase).toNat := by
    cases phase <;> rfl
  have small : phase.toNat < 2 := Bool.toNat_lt phase
  rw [encodeSlot_mod_two, flipped] at low
  rw [shape phase] at high low ⊢
  rw [shape (!phase), phaseFlag]
  omega

/-- Shifting the flags away leaves the wrapped index counter. -/
@[simp] theorem encodeSlot_shiftRight
    (position : Nat)
    (phase : Bool) :
    encodeSlot width position phase >>> width.indexShift =
      position % 2 ^ width.indexShift := by
  rw [Nat.shiftRight_eq_div_pow, encodeSlot, Nat.add_comm,
    Nat.add_mul_div_right _ _ (Nat.two_pow_pos _),
    Nat.div_eq_of_lt (phase_lt_counter width phase), Nat.zero_add]

/-- The buffer index of a slot is its position modulo the buffer size. -/
@[simp] theorem slotIndex_encodeSlot
    (N : BufferSize width)
    (position : Nat)
    (phase : Bool) :
    slotIndex width N.size (encodeSlot width position phase) =
      position % N.size := by
  rw [slotIndex, encodeSlot_shiftRight, N.and_size_sub_one,
    N.mod_counter_mod]

/-- The comparison that decides whether a call opens a new range. -/
theorem xor_and_phaseFlag_eq_zero_iff
    (first second : Nat)
    (firstPhase secondPhase : Bool) :
    (encodeSlot width first firstPhase ^^^
        encodeSlot width second secondPhase) &&& phaseFlag = 0 ↔
      firstPhase = secondPhase := by
  have low :
      (encodeSlot width first firstPhase ^^^
          encodeSlot width second secondPhase) % 2 =
        (encodeSlot width first firstPhase % 2) ^^^
          (encodeSlot width second secondPhase % 2) := by
    have := Nat.xor_mod_two_pow (a := encodeSlot width first firstPhase)
      (b := encodeSlot width second secondPhase) (n := 1)
    simpa using this
  rw [phaseFlag, Nat.and_one_is_mod, low, encodeSlot_mod_two,
    encodeSlot_mod_two]
  cases firstPhase <;> cases secondPhase <;> decide

end StackQueue
