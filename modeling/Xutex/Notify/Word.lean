/-
**The state word of the notifier.**

`NotifyCore::state` holds `generation << 3 | PERMIT | HAS_QUEUE` in one machine word. The operations
are the word operations of `notify.rs` on natural numbers below `2 ^ bits`; one lemma for each of
them and each field says what becomes of the field. The generation wraps around after `generations`
broadcasts.
-/

import Mathlib.Data.Nat.Bitwise
import Mathlib.Tactic.Common
import Xutex.Core.Pointer

namespace Xutex.Notify

/-! ### The operations -/

/-- `generation(state)`. -/
def generation (word : ℕ) : ℕ := word >>> 3

/-- `cur & HAS_QUEUE != 0`. -/
def hasQueue (word : ℕ) : Bool := decide (word &&& 2 ≠ 0)

/-- `cur & PERMIT != 0`. -/
def hasPermit (word : ℕ) : Bool := decide (word &&& 4 ≠ 0)

/-- `fetch_or(HAS_QUEUE)`. -/
def setQueue (word : ℕ) : ℕ := word ||| 2

/-- `fetch_and(!HAS_QUEUE)`. -/
def clearQueue (width : PointerWidth) (word : ℕ) : ℕ := word &&& (2 ^ width.bits - 1 - 2)

/-- `cur | PERMIT`. -/
def setPermit (word : ℕ) : ℕ := word ||| 4

/-- `cur & !PERMIT`. -/
def clearPermit (width : PointerWidth) (word : ℕ) : ℕ := word &&& (2 ^ width.bits - 1 - 4)

/-- `fetch_add(GEN_ONE)`, which wraps around. -/
def addGeneration (width : PointerWidth) (word : ℕ) : ℕ := (word + 8) % 2 ^ width.bits

/-- How many generations there are. -/
def generations (width : PointerWidth) : ℕ := 2 ^ (width.bits - 3)

/-! ### The fields -/

theorem generation_eq (word : ℕ) : generation word = word / 8 := Nat.shiftRight_eq_div_pow word 3

theorem hasQueue_eq (word : ℕ) : hasQueue word = word.testBit 1 := by
  rw [hasQueue, show (2 : ℕ) = 2 ^ 1 from rfl, Nat.and_two_pow]
  cases word.testBit 1 <;> rfl

theorem hasPermit_eq (word : ℕ) : hasPermit word = word.testBit 2 := by
  rw [hasPermit, show (4 : ℕ) = 2 ^ 2 from rfl, Nat.and_two_pow]
  cases word.testBit 2 <;> rfl

theorem eight_mul_generations (width : PointerWidth) : 8 * generations width = 2 ^ width.bits := by
  cases width <;> decide

section Fields

variable {width : PointerWidth} {word : ℕ}

@[simp] theorem setQueue_generation : generation (setQueue word) = generation word := by
  simp [generation, setQueue, Nat.shiftRight_or_distrib]

@[simp] theorem setQueue_hasQueue : hasQueue (setQueue word) = true := by
  rw [hasQueue_eq, setQueue, Nat.testBit_or, show Nat.testBit 2 1 = true from rfl, Bool.or_true]

@[simp] theorem setQueue_hasPermit : hasPermit (setQueue word) = hasPermit word := by
  rw [hasPermit_eq, hasPermit_eq, setQueue, Nat.testBit_or, show Nat.testBit 2 2 = false from rfl,
    Bool.or_false]

@[simp] theorem setPermit_generation : generation (setPermit word) = generation word := by
  simp [generation, setPermit, Nat.shiftRight_or_distrib]

@[simp] theorem setPermit_hasQueue : hasQueue (setPermit word) = hasQueue word := by
  rw [hasQueue_eq, hasQueue_eq, setPermit, Nat.testBit_or, show Nat.testBit 4 1 = false from rfl,
    Bool.or_false]

@[simp] theorem setPermit_hasPermit : hasPermit (setPermit word) = true := by
  rw [hasPermit_eq, setPermit, Nat.testBit_or, show Nat.testBit 4 2 = true from rfl, Bool.or_true]

theorem shiftRight_and_mask {mask : ℕ} (bound : generation word < generations width)
    (high : mask >>> 3 = generations width - 1) : (word &&& mask) >>> 3 = word >>> 3 := by
  have small : word >>> 3 < 2 ^ (width.bits - 3) := bound
  rw [Nat.shiftRight_and_distrib, high, generations, Nat.and_two_pow_sub_one_of_lt_two_pow small]

theorem clearQueue_generation (bound : generation word < generations width) :
    generation (clearQueue width word) = generation word :=
  shiftRight_and_mask bound (by cases width <;> rfl)

@[simp] theorem clearQueue_hasQueue : hasQueue (clearQueue width word) = false := by
  have mask : (2 ^ width.bits - 1 - 2).testBit 1 = false := by cases width <;> decide
  rw [hasQueue_eq, clearQueue, Nat.testBit_and, mask, Bool.and_false]

@[simp] theorem clearQueue_hasPermit : hasPermit (clearQueue width word) = hasPermit word := by
  have mask : (2 ^ width.bits - 1 - 2).testBit 2 = true := by cases width <;> decide
  rw [hasPermit_eq, hasPermit_eq, clearQueue, Nat.testBit_and, mask, Bool.and_true]

theorem clearPermit_generation (bound : generation word < generations width) :
    generation (clearPermit width word) = generation word :=
  shiftRight_and_mask bound (by cases width <;> rfl)

@[simp] theorem clearPermit_hasQueue : hasQueue (clearPermit width word) = hasQueue word := by
  have mask : (2 ^ width.bits - 1 - 4).testBit 1 = true := by cases width <;> decide
  rw [hasQueue_eq, hasQueue_eq, clearPermit, Nat.testBit_and, mask, Bool.and_true]

@[simp] theorem clearPermit_hasPermit : hasPermit (clearPermit width word) = false := by
  have mask : (2 ^ width.bits - 1 - 4).testBit 2 = false := by cases width <;> decide
  rw [hasPermit_eq, clearPermit, Nat.testBit_and, mask, Bool.and_false]

theorem addGeneration_generation (bound : generation word + 1 < generations width) :
    generation (addGeneration width word) = generation word + 1 := by
  have total := eight_mul_generations width
  rw [generation_eq] at bound
  rw [generation_eq, generation_eq, addGeneration, Nat.mod_eq_of_lt (by omega)]
  omega

/-- Even when it wraps around, the sum keeps the flags. -/
theorem addGeneration_mod : addGeneration width word % 8 = word % 8 := by
  have divides : 8 ∣ 2 ^ width.bits := ⟨_, (eight_mul_generations width).symm⟩
  rw [addGeneration, Nat.mod_mod_of_dvd _ divides]
  omega

@[simp] theorem addGeneration_hasQueue : hasQueue (addGeneration width word) = hasQueue word := by
  have same : addGeneration width word % 8 = word % 8 := addGeneration_mod
  simp only [hasQueue_eq, Nat.testBit_eq_decide_div_mod_eq, decide_eq_decide]
  omega

@[simp] theorem addGeneration_hasPermit :
    hasPermit (addGeneration width word) = hasPermit word := by
  have same : addGeneration width word % 8 = word % 8 := addGeneration_mod
  simp only [hasPermit_eq, Nat.testBit_eq_decide_div_mod_eq, decide_eq_decide]
  omega

end Fields

end Xutex.Notify
