import StackQueue.Helpers
import StackQueue.PackedCounters
import StackQueue.TransitionSystem

namespace StackQueue.RegionWord

open PackedCounters

/-!
# The occupancy word on both pointer widths

`region_mask` and `one_shifted` shift by the region's number times
`REGION_COUNT`: eight bits a region on a 64-bit target, but four bits a region
on a 32-bit target, where the masks are still eight bits wide.  The counts of
the regions are packed at the shorter stride there, and a mask reads its own
region together with parts of its neighbours.
-/

/-- The occupancy word, and how often each region is occupied. -/
structure State where
  word : Nat
  count : Nat → Nat

/-- The two updates of the occupancy word. -/
inductive Action where
  /-- The `fetch_add` of `one_shifted(index)`. -/
  | occupy (index : Nat)
  /-- The `fetch_sub` of `one_shifted(index)`. -/
  | deoccupy (index : Nat)
  deriving Repr, DecidableEq

/-- No region is occupied. -/
def initial : State :=
  ⟨0, fun _ => 0⟩

variable {width : PointerWidth}

/-- One update that keeps the count of its region between 0 and 255. -/
def step
    (N : BufferSize width)
    (state : State) :
    Action → Option State
  | .occupy index =>
      let region := currentRegion width N.size index
      if index < N.size ∧ state.count region < 255 then
        some {
          word :=
            wrappingAdd width (oneShifted width N.size index) state.word
          count :=
            Function.update state.count region (state.count region + 1) }
      else
        none
  | .deoccupy index =>
      let region := currentRegion width N.size index
      if index < N.size ∧ 0 < state.count region then
        some {
          word :=
            wrappingSub width state.word (oneShifted width N.size index)
          count :=
            Function.update state.count region (state.count region - 1) }
      else
        none

/-- The states of the sequences of updates. -/
abbrev Reachable (N : BufferSize width) (state : State) : Prop :=
  TransitionSystem.Reachable (step N) TransitionSystem.anyStep initial
    state

/-- What `check_regional_occupancy` reads for an index. -/
def masked (N : BufferSize width) (state : State) (index : Nat) : Nat :=
  state.word &&& regionMask width N.size index

/-- The bits from one region's unit to the next. -/
def stride (width : PointerWidth) : Nat :=
  width.regionCount

/-! ## The shifts -/

theorem regionCount_eq (width : PointerWidth) :
    2 ^ trailingZeros width width.regionCount = stride width := by
  cases width <;> decide

theorem shiftLeft_eq
    {value region : Nat}
    (small : value < 256)
    (below : region < width.regionCount) :
    shiftLeft width value
        (region <<< trailingZeros width width.regionCount) =
      value <<< (stride width * region) := by
  have fits :
      value * 2 ^ (stride width * region) < 2 ^ width.bits := by
    calc
      value * 2 ^ (stride width * region)
          < 2 ^ 8 * 2 ^ (stride width * region) :=
        Nat.mul_lt_mul_of_pos_right small (Nat.two_pow_pos _)
      _ = 2 ^ (8 + stride width * region) := (Nat.pow_add _ _ _).symm
      _ ≤ 2 ^ width.bits := by
        refine Nat.pow_le_pow_right (by decide) ?_
        cases width <;>
          simp only [stride, PointerWidth.regionCount, PointerWidth.bits]
            at below ⊢ <;>
          omega
  rw [shiftLeft, Nat.shiftLeft_eq region, regionCount_eq,
    Nat.mul_comm region, Nat.shiftLeft_eq, Nat.mod_eq_of_lt fits]

/-- Every region's unit is where its stride puts it. -/
theorem oneShifted_eq
    (N : BufferSize width)
    {index : Nat}
    (inBuffer : index < N.size) :
    oneShifted width N.size index =
      unit (stride width) (currentRegion width N.size index) := by
  rw [oneShifted, ← currentRegion,
    shiftLeft_eq (by decide) (N.currentRegion_lt inBuffer),
    Nat.shiftLeft_eq, Nat.one_mul, unit]

/-- A mask reads eight bits from there on. -/
theorem masked_eq
    (N : BufferSize width)
    (state : State)
    {index : Nat}
    (inBuffer : index < N.size) :
    masked N state index =
      read (stride width) 8 (currentRegion width N.size index) state.word *
        oneShifted width N.size index := by
  rw [masked, regionMask, regionMaskBits,
    shiftLeft_eq (by decide) (N.currentRegion_lt inBuffer),
    oneShifted_eq N inBuffer]
  exact and_shifted_mask (stride width) 8 _ _

/-- So it tests the bits that it reads. -/
theorem and_regionMask_eq_zero_iff
    (N : BufferSize width)
    {index : Nat}
    (inBuffer : index < N.size)
    (word : Nat) :
    word &&& regionMask width N.size index = 0 ↔
      read (stride width) 8 (currentRegion width N.size index) word =
        0 := by
  have shape := masked_eq N ⟨word, fun _ => 0⟩ inBuffer
  rw [masked] at shape
  rw [shape, oneShifted_eq N inBuffer, Nat.mul_eq_zero]
  exact or_iff_left (Nat.ne_of_gt (unit_pos _ _))

/-! ## The counts in the word -/

/-- The word packs the counts, and they fit the word together. -/
structure Packed (width : PointerWidth) (state : State) : Prop where
  word :
    state.word = pack (stride width) width.regionCount state.count
  fits : ∀ region, state.count region ≤ 255
  absent : ∀ region, width.regionCount ≤ region → state.count region = 0

/-- Counts up to 255 never carry out of the word. -/
theorem pack_lt_word
    (width : PointerWidth)
    {count : Nat → Nat}
    (fits : ∀ region, count region ≤ 255) :
    pack (stride width) width.regionCount count < 2 ^ width.bits := by
  cases width with
  | w64 =>
      exact pack_lt fun region _ => Nat.lt_succ_of_le (fits region)
  | w32 =>
      have first := fits 0
      have second := fits 1
      have third := fits 2
      have fourth := fits 3
      simp only [stride, PointerWidth.regionCount, PointerWidth.bits, pack,
        Finset.sum_range_succ, Finset.sum_range_zero, unit]
      omega

namespace Packed

variable {N : BufferSize width} {state after : State} {action : Action}

theorem initial :
    Packed width RegionWord.initial where
  word := by
    simp [RegionWord.initial, pack]
  fits := by
    simp [RegionWord.initial]
  absent := by
    simp [RegionWord.initial]

/-- The count of one region changes, and the word with it. -/
theorem of_update
    (packed : Packed width state)
    {region count : Nat}
    (exists_ : region < width.regionCount)
    (small : count ≤ 255)
    (counts : after.count = Function.update state.count region count)
    (word :
      (∀ other, after.count other ≤ 255) →
      after.word = pack (stride width) width.regionCount after.count) :
    Packed width after := by
  have fits (other : Nat) : after.count other ≤ 255 := by
    rw [counts]
    by_cases same : other = region
    · rw [same, Function.update_self]
      exact small
    · rw [Function.update_of_ne same]
      exact packed.fits other
  constructor
  case word =>
    exact word fits
  case fits =>
    exact fits
  case absent =>
    intro other beyond
    have differs : other ≠ region := by omega
    rw [counts, Function.update_of_ne differs]
    exact packed.absent other beyond

/-- An update by one keeps the counts packed. -/
theorem step
    (packed : Packed width state)
    (taken : step N state action = some after) :
    Packed width after := by
  cases action with
  | occupy index =>
      simp only [RegionWord.step] at taken
      split at taken
      · rename_i permitted
        cases taken
        obtain ⟨inBuffer, below⟩ := permitted
        have region := N.currentRegion_lt inBuffer
        refine packed.of_update region (by omega) rfl fun fits => ?_
        have raised :
            pack (stride width) width.regionCount
                (Function.update state.count
                  (currentRegion width N.size index)
                  (state.count (currentRegion width N.size index) + 1)) =
              pack (stride width) width.regionCount state.count +
                unit (stride width) (currentRegion width N.size index) :=
          pack_increment region (Function.update_self _ _ state.count)
            fun _ differs => Function.update_of_ne differs _ _
        rw [wrappingAdd, oneShifted_eq N inBuffer, packed.word, ← raised]
        exact Nat.mod_eq_of_lt (pack_lt_word width fits)
      · cases taken
  | deoccupy index =>
      simp only [RegionWord.step] at taken
      split at taken
      · rename_i permitted
        cases taken
        obtain ⟨inBuffer, positive⟩ := permitted
        have region := N.currentRegion_lt inBuffer
        have small := packed.fits (currentRegion width N.size index)
        refine packed.of_update region (by omega) rfl fun fits => ?_
        have lowered :
            pack (stride width) width.regionCount state.count =
              pack (stride width) width.regionCount
                  (Function.update state.count
                    (currentRegion width N.size index)
                    (state.count
                      (currentRegion width N.size index) - 1)) +
                unit (stride width)
                  (currentRegion width N.size index) := by
          refine pack_increment region ?_ ?_
          · rw [Function.update_self]
            omega
          · intro other differs
            rw [Function.update_of_ne differs]
        have inWord := pack_lt_word width packed.fits
        rw [wrappingSub, oneShifted_eq N inBuffer, packed.word]
        rw [lowered] at inWord ⊢
        rw [← Nat.add_sub_assoc (by omega), Nat.add_right_comm,
          Nat.add_sub_cancel, Nat.add_mod_right]
        exact Nat.mod_eq_of_lt (pack_lt_word width fits)
      · cases taken

end Packed

/-- Along every sequence of updates the word packs the counts. -/
theorem Reachable.packed
    {N : BufferSize width}
    {state : State}
    (reachable : Reachable N state) :
    Packed width state :=
  TransitionSystem.Reachable.invariant Packed.initial
    (fun _ packed _ taken => packed.step taken) reachable

/-! ## What the masks read -/

/--
Nothing of the other regions shows in what is read for a region.  On a 32-bit
target the regions below carry into it, and the region above begins four bits
later, within the mask.
-/
def Undisturbed (count : Nat → Nat) (region : Nat) : PointerWidth → Prop
  | .w64 => True
  | .w32 =>
      (pack 4 region count / unit 4 region + 16 * count (region + 1)) %
        256 = 0

/-- Masking the word gives the count of the region, at the region's unit. -/
def Decodes (N : BufferSize width) (state : State) (index : Nat) : Prop :=
  masked N state index =
    state.count (currentRegion width N.size index) *
      oneShifted width N.size index

namespace Packed

variable {N : BufferSize width} {state : State}

/-- Above a region of a 32-bit word the next one begins four bits later. -/
theorem exists_rest
    {state : State}
    (packed : Packed .w32 state)
    {region upper : Nat}
    (split : PointerWidth.regionCount .w32 = region + upper + 1) :
    ∃ rest,
      pack 4 upper (fun r => state.count (region + 1 + r)) =
        state.count (region + 1) + 16 * rest := by
  cases upper with
  | zero =>
      refine ⟨0, ?_⟩
      rw [pack_zero, packed.absent (region + 1) (by omega)]
  | succ upper =>
      refine ⟨pack 4 upper fun r => state.count (region + 1 + (1 + r)), ?_⟩
      rw [Nat.add_comm upper, pack_add]
      simp [pack, unit]

/-- A region is read as it was counted exactly if nothing else shows. -/
theorem read_eq_iff
    (packed : Packed width state)
    {region : Nat}
    (exists_ : region < width.regionCount) :
    read (stride width) 8 region state.word = state.count region ↔
      Undisturbed state.count region width := by
  cases width with
  | w64 =>
      refine iff_of_true ?_ trivial
      rw [packed.word]
      exact field_pack
        (fun other _ => Nat.lt_succ_of_le (packed.fits other)) exists_
  | w32 =>
      obtain ⟨upper, split⟩ := Nat.exists_eq_add_of_lt exists_
      obtain ⟨rest, next⟩ := packed.exists_rest split
      have own :
          pack 4 (1 + upper) (fun r => state.count (region + r)) =
            state.count region +
              16 * (state.count (region + 1) + 16 * rest) := by
        rw [pack_add, ← next]
        simp [pack, unit, Nat.add_assoc]
      have fits := packed.fits region
      have word :
          state.word = pack 4 (region + (1 + upper)) state.count := by
        rw [packed.word, split, Nat.add_assoc, Nat.add_comm upper]
        rfl
      rw [word, stride, PointerWidth.regionCount, read_pack, own,
        Undisturbed]
      omega

/-- Masking gives the count exactly if nothing else shows. -/
theorem decodes_iff
    (packed : Packed width state)
    {index : Nat}
    (inBuffer : index < N.size) :
    Decodes N state index ↔
      Undisturbed state.count (currentRegion width N.size index)
        width := by
  have positive : 0 < oneShifted width N.size index := by
    rw [oneShifted_eq N inBuffer]
    exact unit_pos _ _
  rw [Decodes, masked_eq N state inBuffer, Nat.mul_left_inj positive.ne']
  exact packed.read_eq_iff (N.currentRegion_lt inBuffer)

end Packed

/-- A region that is read as counted is read as zero if it is empty. -/
theorem Decodes.masked_eq_zero_iff
    {N : BufferSize width}
    {state : State}
    {index : Nat}
    (decodes : Decodes N state index)
    (inBuffer : index < N.size) :
    masked N state index = 0 ↔
      state.count (currentRegion width N.size index) = 0 := by
  have positive : 0 < oneShifted width N.size index := by
    rw [oneShifted_eq N inBuffer]
    exact unit_pos _ _
  rw [show masked N state index = _ from decodes, Nat.mul_eq_zero,
    or_iff_left positive.ne']

/-- An update counts in its own region only. -/
theorem count_of_ne
    {N : BufferSize width}
    {state after : State}
    {other region : Nat}
    (differs : currentRegion width N.size other ≠ region)
    (taken :
      step N state (.occupy other) = some after ∨
        step N state (.deoccupy other) = some after) :
    after.count region = state.count region := by
  rcases taken with taken | taken
  · simp only [step] at taken
    split at taken <;> cases taken
    exact Function.update_of_ne differs.symm _ _
  · simp only [step] at taken
    split at taken <;> cases taken
    exact Function.update_of_ne differs.symm _ _

/--
After every sequence of updates, masking the word gives the count of an
index's region exactly if nothing of the other regions shows there: always on
a 64-bit target.  Then the masked word is zero if and only if the count is,
and an update of another region changes what is read exactly if it disturbs
the region.
-/
theorem decodes_iff_undisturbed
    (N : BufferSize width)
    (state : State)
    (reachable : Reachable N state)
    (index : Nat)
    (inBuffer : index < N.size) :
    (Decodes N state index ↔
        Undisturbed state.count (currentRegion width N.size index) width) ∧
      (Decodes N state index →
        (masked N state index = 0 ↔
          state.count (currentRegion width N.size index) = 0)) ∧
      ∀ other after,
        currentRegion width N.size other ≠
          currentRegion width N.size index →
        step N state (.occupy other) = some after ∨
          step N state (.deoccupy other) = some after →
        Decodes N state index →
        (masked N after index = masked N state index ↔
          Undisturbed after.count (currentRegion width N.size index)
            width) := by
  have packed := Reachable.packed reachable
  refine ⟨packed.decodes_iff inBuffer,
    fun decodes => decodes.masked_eq_zero_iff inBuffer, ?_⟩
  intro other after differs taken decodes
  have packedAfter : Packed width after := by
    rcases taken with taken | taken
    · exact packed.step taken
    · exact packed.step taken
  rw [show masked N state index = _ from decodes,
    ← count_of_ne differs taken]
  exact packedAfter.decodes_iff inBuffer

/-- The second region is occupied twice and released once. -/
def twiceOccupied : List Action :=
  [.occupy 16, .occupy 20, .deoccupy 16]

/-- The smallest buffer of a 32-bit target. -/
def smallestBuffer32 : BufferSize .w32 :=
  ⟨64, by decide⟩

/-- What the masks of a 32-bit word read after that. -/
theorem decodes_iff_undisturbed_twiceOccupied :
    ∃ state : State,
      Reachable smallestBuffer32 state ∧
        (state.word, state.count 0, state.count 1) = (16, 0, 1) ∧
        ((Decodes smallestBuffer32 state 16 ↔
            Undisturbed state.count
              (currentRegion .w32 smallestBuffer32.size 16) .w32) ∧
          (Decodes smallestBuffer32 state 16 →
            (masked smallestBuffer32 state 16 = 0 ↔
              state.count
                (currentRegion .w32 smallestBuffer32.size 16) = 0)) ∧
          ∀ other after,
            currentRegion .w32 smallestBuffer32.size other ≠
              currentRegion .w32 smallestBuffer32.size 16 →
            step smallestBuffer32 state (.occupy other) = some after ∨
              step smallestBuffer32 state (.deoccupy other) =
                some after →
            Decodes smallestBuffer32 state 16 →
            (masked smallestBuffer32 after 16 =
                masked smallestBuffer32 state 16 ↔
              Undisturbed after.count
                (currentRegion .w32 smallestBuffer32.size 16) .w32)) := by
  have performed :
      ((TransitionSystem.execute (step smallestBuffer32) initial
          twiceOccupied).map fun state =>
        (state.word, state.count 0, state.count 1)) =
        some (16, 0, 1) := by
    decide +kernel
  obtain ⟨state, reached, shape⟩ := Option.map_eq_some_iff.mp performed
  have reachable : Reachable smallestBuffer32 state :=
    TransitionSystem.Reachable.start.execute reached
  exact ⟨state, reachable, shape,
    decodes_iff_undisturbed smallestBuffer32 state reachable 16
      (by decide)⟩

/-- One range in region 1 makes region 0 read as occupied. -/
theorem occupied_neighbour_shows :
    ∃ state : State,
      Reachable smallestBuffer32 state ∧
        state.count (currentRegion .w32 smallestBuffer32.size 0) = 0 ∧
        masked smallestBuffer32 state 0 ≠ 0 ∧
        ¬ Decodes smallestBuffer32 state 0 := by
  have performed :
      ((TransitionSystem.execute (step smallestBuffer32) initial
          [.occupy 16]).map fun state =>
        (state.count (currentRegion .w32 smallestBuffer32.size 0),
          masked smallestBuffer32 state 0)) =
        some (0, 16) := by
    decide +kernel
  obtain ⟨state, reached, shape⟩ := Option.map_eq_some_iff.mp performed
  simp only [Prod.mk.injEq] at shape
  obtain ⟨empty, shows⟩ := shape
  refine ⟨state, TransitionSystem.Reachable.start.execute reached, empty,
    by simp [shows], ?_⟩
  intro decodes
  rw [Decodes, empty, Nat.zero_mul, shows] at decodes
  cases decodes

end StackQueue.RegionWord
