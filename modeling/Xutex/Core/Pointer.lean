/-
**Pointer words.**

The mutex keeps its whole state in one pointer: null, two sentinels at the top of the address space,
a queue, or a queue with its lowest bit set. Addresses are natural numbers here, with the constants
and the bit operations of `lib.rs`.

`LOCKED` is the last address, and `UPDATING` is `LOCKED.wrapping_sub(1)` of a pointer to a
`QueueStructure`, so it lies one queue of two words below, and it is odd: it looks like a tagged
pointer, and tagging it leaves it as it is. A queue ends within the address space and is aligned to
a word, so it starts below `UPDATING`, and not right before it: neither its address nor its tagged
address is a sentinel (`IsQueue.apart`). On 16 bits, where no target has a compare-and-exchange,
alignment is not enough for that, and the one address in question is excluded.
-/

import Mathlib.Data.Nat.Bitwise
import Mathlib.Tactic.Common

namespace Xutex

/-- The pointer widths Rust has targets for. -/
inductive PointerWidth
  | bits16
  | bits32
  | bits64
  deriving DecidableEq, Repr

namespace PointerWidth

/-- `usize::BITS`. -/
def bits : PointerWidth → ℕ
  | bits16 => 16
  | bits32 => 32
  | bits64 => 64

/-- `UNLOCKED`, the null pointer. -/
def unlocked : ℕ := 0

variable (width : PointerWidth)

/-- The bytes of a word, to which a queue is aligned. -/
def wordBytes : ℕ := width.bits / 8

/-- `size_of::<QueueStructure>()`: the queue is two pointers. -/
def queueBytes : ℕ := 2 * width.wordBytes

/-- `LOCKED`, which is `usize::MAX`. -/
def locked : ℕ := 2 ^ width.bits - 1

/-- `UPDATING`. -/
def updating : ℕ := width.locked - width.queueBytes

/-- The addresses of queues: not null, aligned, and with the whole queue below the end of the
address space. -/
abbrev IsQueue (ptr : ℕ) : Prop :=
  ptr ≠ 0 ∧ ptr % width.wordBytes = 0 ∧ ptr + width.queueBytes ≤ width.locked ∧
    (width = .bits16 → ptr + 1 ≠ width.updating)

theorem updating_pos : 0 < width.updating := by
  cases width <;> decide

theorem updating_lt_locked : width.updating < width.locked := by
  cases width <;> decide

end PointerWidth

/-- `tag_pointer`. -/
def tagPointer (ptr : ℕ) : ℕ := ptr ||| 1

/-- `untag_pointer`: the pointer without its tag, and whether it had one. -/
def untagPointer (width : PointerWidth) (ptr : ℕ) : ℕ × Bool :=
  (ptr &&& (2 ^ width.bits - 2), decide (ptr &&& 1 = 1))

theorem tagPointer_eq {ptr : ℕ} (even : ptr % 2 = 0) : tagPointer ptr = ptr + 1 := by
  obtain ⟨half, rfl⟩ : ∃ half, ptr = 2 * half := ⟨ptr / 2, by omega⟩
  exact (Nat.two_pow_add_eq_or_of_lt (i := 1) (by decide : 1 < 2 ^ 1) half).symm

/-- Clearing the lowest bit of an even number keeps it. -/
theorem and_clear {bits ptr : ℕ} (even : ptr % 2 = 0) (bound : ptr < 2 ^ (bits + 1)) :
    ptr &&& (2 ^ (bits + 1) - 2) = ptr := by
  obtain ⟨half, rfl⟩ : ∃ half, ptr = 2 * half := ⟨ptr / 2, by omega⟩
  have mask : 2 ^ (bits + 1) - 2 = 2 * (2 ^ bits - 1) := by rw [pow_succ]; omega
  have small : half < 2 ^ bits := by rw [pow_succ] at bound; omega
  have shift : 2 * half &&& 2 * (2 ^ bits - 1) = (half &&& (2 ^ bits - 1)) * 2 := by
    simpa [Nat.shiftLeft_eq, mul_comm] using
      (Nat.shiftLeft_and_distrib (i := 1) (a := half) (b := 2 ^ bits - 1)).symm
  rw [mask, shift, Nat.and_two_pow_sub_one_of_lt_two_pow small, mul_comm]

namespace PointerWidth

variable {width : PointerWidth} {ptr : ℕ}

/-- Tagging `UPDATING` leaves it as it is. -/
theorem tag_updating : tagPointer width.updating = width.updating := by
  cases width <;> decide

section

variable (queue : width.IsQueue ptr)
include queue

/-- A queue and its tagged address are below `UPDATING`. -/
theorem IsQueue.below : ptr + 1 < width.updating := by
  obtain ⟨-, aligned, fits, apart⟩ := queue
  cases width with
  | bits16 =>
    have apart := apart rfl
    simp only [updating, queueBytes, wordBytes, locked, bits] at aligned fits apart ⊢
    omega
  | bits32 | bits64 =>
    simp only [updating, queueBytes, wordBytes, locked, bits] at aligned fits ⊢
    omega

theorem IsQueue.even : ptr % 2 = 0 := by
  obtain ⟨-, aligned, -⟩ := queue
  cases width <;> simp only [wordBytes, bits] at aligned <;> omega

/-- **A queue is no sentinel, and tagging it makes none.** -/
theorem IsQueue.apart : ptr ≠ width.updating ∧ ptr ≠ width.locked ∧
    tagPointer ptr ≠ width.updating ∧ tagPointer ptr ≠ width.locked := by
  have below := queue.below
  have top := width.updating_lt_locked
  rw [tagPointer_eq queue.even]
  omega

/-- A queue is untagged. -/
theorem IsQueue.untag : untagPointer width ptr = (ptr, false) := by
  have bound : ptr < 2 ^ width.bits := by
    have below := queue.below
    have top := width.updating_lt_locked
    unfold locked at top
    omega
  have clear : ptr &&& (2 ^ width.bits - 2) = ptr := by
    cases width <;> exact and_clear queue.even bound
  have untagged : ptr &&& 1 ≠ 1 := by
    rw [Nat.and_one_is_mod, queue.even]
    decide
  rw [untagPointer, clear, decide_eq_false untagged]

/-- A tagged queue is tagged. -/
theorem IsQueue.untag_tagged : (untagPointer width (tagPointer ptr)).2 = true := by
  have even := queue.even
  rw [untagPointer, tagPointer_eq even]
  exact decide_eq_true (by rw [Nat.and_one_is_mod]; omega)

end

end PointerWidth

end Xutex
