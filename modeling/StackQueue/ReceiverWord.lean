import Mathlib.Data.Nat.Bitwise

namespace StackQueue

/-!
# The state word of a task cell

`SETTING_VALUE`, `VALUE_SET` and `RX_DROPPED` of `task.rs`: the flags through
which a resolver and the drop of a receiver negotiate.  The lemmas read each
operation on the word bit by bit.
-/

/-- `SETTING_VALUE`. -/
def settingValue : Nat :=
  1 <<< 0

/-- `VALUE_SET`. -/
def valueSet : Nat :=
  1 <<< 1

/-- `RX_DROPPED`. -/
def rxDropped : Nat :=
  1 <<< 2

/-- The resolver has begun on the cell and has not completed it. -/
def isSetting (word : Nat) : Bool :=
  word.testBit 0

/-- The resolver has completed the cell. -/
def isSet (word : Nat) : Bool :=
  word.testBit 1

/-- The receiver is dropped. -/
def isDropped (word : Nat) : Bool :=
  word.testBit 2

/-- A flag has one bit. -/
private theorem testBit_one_shiftLeft (i j : Nat) :
    (1 <<< i).testBit j = decide (i = j) := by
  rw [Nat.one_shiftLeft, Nat.testBit_two_pow]

/-- Masking a word with one flag tests that flag. -/
private theorem and_flag_eq_flag_iff (word i : Nat) :
    word &&& 1 <<< i = 1 <<< i ↔ word.testBit i = true := by
  constructor
  · intro masked
    have bit := congrArg (Nat.testBit · i) masked
    simpa [testBit_one_shiftLeft] using bit
  · intro isOn
    apply Nat.eq_of_testBit_eq
    intro j
    rw [Nat.testBit_and, testBit_one_shiftLeft]
    by_cases here : i = j
    · subst here
      simp [isOn]
    · simp [here]

/-- A masked flag is zero exactly when the word lacks the flag. -/
private theorem and_flag_eq_zero_iff (word i : Nat) :
    word &&& 1 <<< i = 0 ↔ word.testBit i = false := by
  constructor
  · intro masked
    have bit := congrArg (Nat.testBit · i) masked
    simpa [testBit_one_shiftLeft] using bit
  · intro isOff
    apply Nat.eq_of_testBit_eq
    intro j
    rw [Nat.testBit_and, testBit_one_shiftLeft]
    by_cases here : i = j
    · subst here
      simp [isOff]
    · simp [here]

/-! ## The tests of `resolve_unchecked` and of the drop -/

/-- The drop spins while `SETTING_VALUE` is in the word. -/
theorem and_settingValue_eq_iff (word : Nat) :
    word &&& settingValue = settingValue ↔ isSetting word = true :=
  and_flag_eq_flag_iff word 0

/-- The drop takes the value if `VALUE_SET` is in the word. -/
theorem and_valueSet_eq_iff (word : Nat) :
    word &&& valueSet = valueSet ↔ isSet word = true :=
  and_flag_eq_flag_iff word 1

/-- The resolver goes on if `RX_DROPPED` is not in the word. -/
theorem and_rxDropped_eq_zero_iff (word : Nat) :
    word &&& rxDropped = 0 ↔ isDropped word = false :=
  and_flag_eq_zero_iff word 2

/-! ## The resolver's `fetch_or(SETTING_VALUE)` -/

/-- It announces that the value is being set. -/
@[simp]
theorem isSetting_or_settingValue (word : Nat) :
    isSetting (word ||| settingValue) = true := by
  rw [isSetting, Nat.testBit_or, settingValue, testBit_one_shiftLeft]
  exact Bool.or_true _

/-- It leaves the two other flags alone. -/
@[simp]
theorem isSet_or_settingValue (word : Nat) :
    isSet (word ||| settingValue) = isSet word := by
  rw [isSet, Nat.testBit_or, settingValue, testBit_one_shiftLeft]
  exact Bool.or_false _

@[simp]
theorem isDropped_or_settingValue (word : Nat) :
    isDropped (word ||| settingValue) = isDropped word := by
  rw [isDropped, Nat.testBit_or, settingValue, testBit_one_shiftLeft]
  exact Bool.or_false _

/-! ## The resolver's `fetch_xor(SETTING_VALUE | VALUE_SET)` -/

/-- It takes the announcement back. -/
@[simp]
theorem isSetting_xor_completed (word : Nat) :
    isSetting (word ^^^ (settingValue ||| valueSet)) =
      !isSetting word := by
  rw [isSetting, Nat.testBit_xor, Nat.testBit_or, settingValue, valueSet,
    testBit_one_shiftLeft, testBit_one_shiftLeft]
  exact Bool.xor_true _

/-- It says that the value is there. -/
@[simp]
theorem isSet_xor_completed (word : Nat) :
    isSet (word ^^^ (settingValue ||| valueSet)) = !isSet word := by
  rw [isSet, Nat.testBit_xor, Nat.testBit_or, settingValue, valueSet,
    testBit_one_shiftLeft, testBit_one_shiftLeft]
  exact Bool.xor_true _

/-- It leaves the drop's flag alone. -/
@[simp]
theorem isDropped_xor_completed (word : Nat) :
    isDropped (word ^^^ (settingValue ||| valueSet)) =
      isDropped word := by
  rw [isDropped, Nat.testBit_xor, Nat.testBit_or, settingValue, valueSet,
    testBit_one_shiftLeft, testBit_one_shiftLeft]
  exact Bool.xor_false _

/-! ## The drop's `fetch_or(RX_DROPPED)` -/

/-- It leaves the resolver's two flags alone. -/
@[simp]
theorem isSetting_or_rxDropped (word : Nat) :
    isSetting (word ||| rxDropped) = isSetting word := by
  rw [isSetting, Nat.testBit_or, rxDropped, testBit_one_shiftLeft]
  exact Bool.or_false _

@[simp]
theorem isSet_or_rxDropped (word : Nat) :
    isSet (word ||| rxDropped) = isSet word := by
  rw [isSet, Nat.testBit_or, rxDropped, testBit_one_shiftLeft]
  exact Bool.or_false _

/-- It announces the drop. -/
@[simp]
theorem isDropped_or_rxDropped (word : Nat) :
    isDropped (word ||| rxDropped) = true := by
  rw [isDropped, Nat.testBit_or, rxDropped, testBit_one_shiftLeft]
  exact Bool.or_true _

/-! ## The word that `init` writes -/

/-- A fresh cell has no flag. -/
@[simp]
theorem isSetting_zero : isSetting 0 = false :=
  rfl

@[simp]
theorem isSet_zero : isSet 0 = false :=
  rfl

@[simp]
theorem isDropped_zero : isDropped 0 = false :=
  rfl

end StackQueue
