/-
**The pool word of the semaphore.**

`SemCore::pool` holds `permits << 2 | HAS_QUEUE | CLOSED` in one machine word. The operations here
are the word operations of `semaphore.rs`, on natural numbers below `2 ^ bits`; for each of them and
for each of the three fields one lemma says what becomes of the field. Everything else about the
semaphore reads the word through its fields.
-/

import Mathlib.Data.Nat.Bitwise
import Mathlib.Tactic.Common
import Xutex.Core.Pointer

namespace Xutex.Semaphore

/-! ### The operations -/

/-- `MAX_PERMITS`. -/
def maxPermits (width : PointerWidth) : ℕ := (2 ^ width.bits - 1) >>> 3

/-- `cur >> PERMIT_SHIFT`. -/
def permits (word : ℕ) : ℕ := word >>> 2

/-- `cur & CLOSED != 0`. -/
def isClosed (word : ℕ) : Bool := decide (word &&& 1 ≠ 0)

/-- `cur & HAS_QUEUE != 0`. -/
def hasQueue (word : ℕ) : Bool := decide (word &&& 2 ≠ 0)

/-- The word of `SemCore::new`. -/
def newPool (n : ℕ) : ℕ := n <<< 2

/-- `cur - (n << PERMIT_SHIFT)`. -/
def takePermits (word n : ℕ) : ℕ := word - n <<< 2

/-- `fetch_add(n << PERMIT_SHIFT)`, which wraps around. -/
def addPermits (width : PointerWidth) (word n : ℕ) : ℕ :=
  (word + n <<< 2 % 2 ^ width.bits) % 2 ^ width.bits

/-- `cur & (CLOSED | HAS_QUEUE)`. -/
def takeAll (word : ℕ) : ℕ := word &&& 3

/-- `fetch_or(HAS_QUEUE)`. -/
def setQueue (word : ℕ) : ℕ := word ||| 2

/-- `fetch_and(!HAS_QUEUE)`. -/
def clearQueue (width : PointerWidth) (word : ℕ) : ℕ := word &&& (2 ^ width.bits - 1 - 2)

/-- `fetch_or(CLOSED)`. -/
def setClosed (word : ℕ) : ℕ := word ||| 1

/-- The assertion of `release` on the word it found; the sum is one of machine words. -/
def releaseFits (width : PointerWidth) (word n : ℕ) : Bool :=
  decide ((permits word + n) % 2 ^ width.bits ≤ maxPermits width)

/-! ### The fields -/

theorem permits_eq (word : ℕ) : permits word = word / 4 := Nat.shiftRight_eq_div_pow word 2

theorem isClosed_eq (word : ℕ) : isClosed word = word.testBit 0 := by
  rw [isClosed, Nat.and_one_is_mod, Nat.testBit_zero]
  rcases Nat.mod_two_eq_zero_or_one word with even | odd
  · simp [even]
  · simp [odd]

theorem hasQueue_eq (word : ℕ) : hasQueue word = word.testBit 1 := by
  rw [hasQueue, show (2 : ℕ) = 2 ^ 1 from rfl, Nat.and_two_pow]
  cases word.testBit 1 <;> rfl

/-- The flags are the two lowest bits. -/
theorem flags_of_mod {word word' : ℕ} (same : word' % 4 = word % 4) :
    isClosed word' = isClosed word ∧ hasQueue word' = hasQueue word := by
  simp only [isClosed_eq, hasQueue_eq, Nat.testBit_eq_decide_div_mod_eq, decide_eq_decide]
  omega

theorem maxPermits_lt (width : PointerWidth) : 4 * maxPermits width + 3 < 2 ^ width.bits := by
  cases width <;> decide

theorem four_dvd_twoPow (width : PointerWidth) : 4 ∣ 2 ^ width.bits := by
  cases width <;> decide

section Fields

variable {width : PointerWidth} {word n : ℕ}

@[simp] theorem newPool_permits : permits (newPool n) = n := by
  rw [permits_eq, newPool, Nat.shiftLeft_eq]
  omega

theorem newPool_mod : newPool n % 4 = 0 % 4 := by
  rw [newPool, Nat.shiftLeft_eq]
  omega

@[simp] theorem newPool_isClosed : isClosed (newPool n) = false :=
  (flags_of_mod newPool_mod).1.trans rfl

@[simp] theorem newPool_hasQueue : hasQueue (newPool n) = false :=
  (flags_of_mod newPool_mod).2.trans rfl

@[simp] theorem takePermits_permits : permits (takePermits word n) = permits word - n := by
  simp only [permits_eq, takePermits, Nat.shiftLeft_eq]
  omega

theorem takePermits_mod (enough : n ≤ permits word) : takePermits word n % 4 = word % 4 := by
  rw [permits_eq] at enough
  rw [takePermits, Nat.shiftLeft_eq]
  omega

theorem addPermits_eq (fits : permits word + n ≤ maxPermits width) :
    addPermits width word n = word + 4 * n := by
  have bound := maxPermits_lt width
  rw [permits_eq] at fits
  rw [addPermits, Nat.shiftLeft_eq, Nat.mod_eq_of_lt (by omega : n * 2 ^ 2 < 2 ^ width.bits),
    Nat.mod_eq_of_lt (by omega : word + n * 2 ^ 2 < 2 ^ width.bits)]
  omega

theorem addPermits_permits (fits : permits word + n ≤ maxPermits width) :
    permits (addPermits width word n) = permits word + n := by
  rw [addPermits_eq fits, permits_eq, permits_eq]
  omega

/-- Even when it wraps around, the sum keeps the flags. -/
theorem addPermits_mod : addPermits width word n % 4 = word % 4 := by
  rw [addPermits, Nat.mod_mod_of_dvd _ (four_dvd_twoPow width), Nat.add_mod,
    Nat.mod_mod_of_dvd _ (four_dvd_twoPow width), Nat.shiftLeft_eq]
  omega

@[simp] theorem addPermits_isClosed : isClosed (addPermits width word n) = isClosed word :=
  (flags_of_mod addPermits_mod).1

@[simp] theorem addPermits_hasQueue : hasQueue (addPermits width word n) = hasQueue word :=
  (flags_of_mod addPermits_mod).2

@[simp] theorem takeAll_permits : permits (takeAll word) = 0 := by
  rw [permits_eq, takeAll, show (3 : ℕ) = 2 ^ 2 - 1 from rfl, Nat.and_two_pow_sub_one_eq_mod]
  omega

theorem takeAll_mod : takeAll word % 4 = word % 4 := by
  rw [takeAll, show (3 : ℕ) = 2 ^ 2 - 1 from rfl, Nat.and_two_pow_sub_one_eq_mod]
  omega

@[simp] theorem takeAll_isClosed : isClosed (takeAll word) = isClosed word :=
  (flags_of_mod takeAll_mod).1

@[simp] theorem takeAll_hasQueue : hasQueue (takeAll word) = hasQueue word :=
  (flags_of_mod takeAll_mod).2

@[simp] theorem setQueue_permits : permits (setQueue word) = permits word := by
  simp [permits, setQueue, Nat.shiftRight_or_distrib]

@[simp] theorem setQueue_isClosed : isClosed (setQueue word) = isClosed word := by
  simp only [isClosed_eq, setQueue, Nat.testBit_or]
  simp

@[simp] theorem setQueue_hasQueue : hasQueue (setQueue word) = true := by
  rw [hasQueue_eq, setQueue, Nat.testBit_or, show Nat.testBit 2 1 = true from rfl, Bool.or_true]

@[simp] theorem setClosed_permits : permits (setClosed word) = permits word := by
  simp [permits, setClosed, Nat.shiftRight_or_distrib]

@[simp] theorem setClosed_isClosed : isClosed (setClosed word) = true := by
  simp only [isClosed_eq, setClosed, Nat.testBit_or]
  simp

@[simp] theorem setClosed_hasQueue : hasQueue (setClosed word) = hasQueue word := by
  rw [hasQueue_eq, hasQueue_eq, setClosed, Nat.testBit_or, show Nat.testBit 1 1 = false from rfl,
    Bool.or_false]

theorem clearQueue_permits (bound : permits word ≤ maxPermits width) :
    permits (clearQueue width word) = permits word := by
  rw [permits, clearQueue, Nat.shiftRight_and_distrib]
  have mask : (2 ^ width.bits - 1 - 2) >>> 2 = 2 ^ (width.bits - 2) - 1 := by cases width <;> rfl
  have small : word >>> 2 < 2 ^ (width.bits - 2) :=
    bound.trans_lt (by cases width <;> decide)
  rw [mask, Nat.and_two_pow_sub_one_of_lt_two_pow small, permits]

@[simp] theorem clearQueue_isClosed : isClosed (clearQueue width word) = isClosed word := by
  rw [isClosed_eq, isClosed_eq, clearQueue, Nat.testBit_and]
  have mask : (2 ^ width.bits - 1 - 2).testBit 0 = true := by cases width <;> decide
  rw [mask, Bool.and_true]

@[simp] theorem clearQueue_hasQueue : hasQueue (clearQueue width word) = false := by
  rw [hasQueue_eq, clearQueue, Nat.testBit_and]
  have mask : (2 ^ width.bits - 1 - 2).testBit 1 = false := by cases width <;> decide
  rw [mask, Bool.and_false]

/-- The assertion of `release` holds when the permits fit. -/
theorem releaseFits_of_le (fits : permits word + n ≤ maxPermits width) :
    releaseFits width word n = true := by
  have bound := maxPermits_lt width
  rw [releaseFits, Nat.mod_eq_of_lt (by omega : permits word + n < 2 ^ width.bits)]
  exact decide_eq_true fits

end Fields

end Xutex.Semaphore
