/-
**The wait queue behind its tag-lock.**

`WaitQueue` (`wait_queue.rs`) is a pointer with four states. Here it is the list of the linked nodes
and the party that holds the tag-lock:

| pointer    | `holder` | `entries`  |
|------------|----------|------------|
| `null`     | `none`   | `[]`       |
| `UPDATING` | `some i` | not shared |
| `ptr`      | `none`   | not empty  |
| `ptr \| 1` | `some i` | the holder's |

`lock` answers `spin` while another party holds the lock (the loop of the source reloads the pointer
and changes nothing), `absent` for `lock(false)` on a null pointer, and `acquired` otherwise.
`unlock` is the last store of `LockedQueue::unlock`: it unpublishes an empty queue, so that the null
pointer is the free lock on the empty list.
-/

import Mathlib.Data.List.Basic
import Mathlib.Tactic.Common

namespace Xutex

/-- The nodes of a wait queue, front first, and the holder of its tag-lock. -/
structure WaitQueue (ι : Type) where
  holder : Option ι
  entries : List ι
  deriving DecidableEq

/-- What one round of `WaitQueue::lock` finds. -/
inductive LockResult (ι : Type)
  | spin
  | absent
  | acquired (queue : WaitQueue ι)

namespace WaitQueue

variable {ι : Type}

/-- `WaitQueue::new`. -/
def new : WaitQueue ι := ⟨none, []⟩

/-- `WaitQueue::lock`. -/
def lock (queue : WaitQueue ι) (party : ι) (alloc : Bool) : LockResult ι :=
  match queue.holder with
  | some _ => .spin
  | none => if queue.entries.isEmpty && !alloc then .absent else .acquired
    ⟨some party, queue.entries⟩

/-- The pointer store of `LockedQueue::unlock`. -/
def unlock (queue : WaitQueue ι) : WaitQueue ι := ⟨none, queue.entries⟩

/-- `SignalQueue::push`. -/
def push (queue : WaitQueue ι) (party : ι) : WaitQueue ι := ⟨queue.holder, queue.entries ++ [party]⟩

/-- The queue after the nodes in front of `rest` were popped. -/
def leave (queue : WaitQueue ι) (rest : List ι) : WaitQueue ι := ⟨queue.holder, rest⟩

/-- `SignalQueue::remove`. -/
def remove [DecidableEq ι] (queue : WaitQueue ι) (party : ι) : WaitQueue ι :=
  ⟨queue.holder, queue.entries.erase party⟩

@[simp] theorem unlock_entries (queue : WaitQueue ι) : queue.unlock.entries = queue.entries := rfl
@[simp] theorem unlock_holder (queue : WaitQueue ι) : queue.unlock.holder = none := rfl
@[simp] theorem push_entries (queue : WaitQueue ι) (party : ι) :
    (queue.push party).entries = queue.entries ++ [party] := rfl
@[simp] theorem push_holder (queue : WaitQueue ι) (party : ι) :
    (queue.push party).holder = queue.holder := rfl
@[simp] theorem leave_entries (queue : WaitQueue ι) (rest : List ι) :
    (queue.leave rest).entries = rest := rfl
@[simp] theorem leave_holder (queue : WaitQueue ι) (rest : List ι) :
    (queue.leave rest).holder = queue.holder := rfl
@[simp] theorem remove_entries [DecidableEq ι] (queue : WaitQueue ι) (party : ι) :
    (queue.remove party).entries = queue.entries.erase party := rfl
@[simp] theorem remove_holder [DecidableEq ι] (queue : WaitQueue ι) (party : ι) :
    (queue.remove party).holder = queue.holder := rfl

/-- The lock is acquired only when it was free, and the nodes stay as they were. -/
theorem lock_acquired {queue locked : WaitQueue ι} {party : ι} {alloc : Bool}
    (result : queue.lock party alloc = .acquired locked) :
    queue.holder = none ∧ locked = ⟨some party, queue.entries⟩ ∧
      (alloc = false → queue.entries ≠ []) := by
  unfold lock at result
  split at result
  · cases result
  · rename_i free
    split at result
    · cases result
    · rename_i present
      cases result
      refine ⟨free, rfl, ?_⟩
      rintro rfl
      simpa using present

/-- A free lock is acquired by `lock(true)`. -/
theorem lock_free (entries : List ι) (party : ι) :
    (⟨none, entries⟩ : WaitQueue ι).lock party true = .acquired ⟨some party, entries⟩ := by
  simp [lock]

/-- `lock(false)` reports an absent queue only when the lock is free and nothing is linked. -/
theorem lock_absent {queue : WaitQueue ι} {party : ι} {alloc : Bool}
    (result : queue.lock party alloc = .absent) :
    queue.holder = none ∧ queue.entries = [] ∧ alloc = false := by
  unfold lock at result
  split at result
  · cases result
  · rename_i free
    split at result
    · rename_i missing
      simp only [Bool.and_eq_true, List.isEmpty_iff, Bool.not_eq_true'] at missing
      exact ⟨free, missing⟩
    · cases result

end WaitQueue

end Xutex
