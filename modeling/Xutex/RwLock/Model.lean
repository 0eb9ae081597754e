/-
**The reader-writer lock: guards as permits of a semaphore.**

`RwLockInternal` (`rwlock.rs`) is a semaphore of `max_readers` permits that is never closed and
whose permits nobody adds, forgets or splits. A read guard holds one permit, a write guard holds all
of them, and a downgrade returns all but one. So the machine is the semaphore's, with the kind of
guard as the kind of its permits, and `Move.onSemaphore` says which call of the core each call of
the lock makes.

Two ends of calls are not results of the lock but failures of the code: a release that does not fit,
and an acquisition that finds the semaphore closed, for which `acquire_sync_infallible` and the
futures have an `unreachable!` (`fails`).
-/

import Xutex.Semaphore.Model

namespace Xutex.RwLock

open Concurrency Semaphore

/-- `RwLockReadGuard` and `RwLockWriteGuard`. -/
inductive Guard
  | read
  | write
  deriving DecidableEq, Repr

/-- `MAX_READERS`, which is `(u32::MAX >> 3) as usize`. -/
def MAX_READERS (width : PointerWidth) : ℕ := ((2 ^ 32 - 1) >>> 3) % 2 ^ width.bits

/-- The permit of a guard. -/
def permit (maxReaders : ℕ) : Guard → Permit Guard
  | .read => ⟨.read, 1⟩
  | .write => ⟨.write, maxReaders⟩

/-- The calls of `RwLock` and `AsyncRwLock`, the polls and drops of their futures, and the ends of
guards. -/
inductive Move
  | tryRead
  | tryWrite
  | read
  | write
  | readAsync
  | writeAsync
  | poll (waker : Waker)
  | drop
  | dropReadGuard
  | dropWriteGuard
  | downgrade
  | advance
  deriving DecidableEq, Repr

/-- The call of `SemCore` that a call of the lock makes. -/
def Move.onSemaphore (maxReaders : ℕ) : Move → Semaphore.Move Guard
  | .tryRead => .tryAcquire (permit maxReaders .read)
  | .tryWrite => .tryAcquire (permit maxReaders .write)
  | .read => .acquire (permit maxReaders .read)
  | .write => .acquire (permit maxReaders .write)
  | .readAsync => .create (permit maxReaders .read)
  | .writeAsync => .create (permit maxReaders .write)
  | .poll waker => .poll waker
  | .drop => .drop
  | .dropReadGuard => .dropPermit (permit maxReaders .read)
  | .dropWriteGuard => .dropPermit (permit maxReaders .write)
  | .downgrade => .downgrade (permit maxReaders .write) (permit maxReaders .read)
  | .advance => .advance

/-- A party and its move. -/
abbrev Label (ι : Type) := ι × Move

/-- The step of a label. -/
def step {ι : Type} [DecidableEq ι] (width : PointerWidth) (maxReaders : ℕ) (state : State ι Guard)
    (label : Label ι) : Option (State ι Guard) :=
  Semaphore.step width state (label.1, label.2.onSemaphore maxReaders)

/-- **The lock `RwLock::with_max_readers`**, which asserts `1 ≤ max_readers ≤ MAX_READERS`;
`SemCore::new` asserts that they are permits. -/
def machine (ι : Type) [DecidableEq ι] (width : PointerWidth) (maxReaders : ℕ) :
    System (State ι Guard) (Label ι) where
  init state := (0 < maxReaders ∧ maxReaders ≤ MAX_READERS width) ∧ maxReaders ≤ maxPermits width ∧
    state = start maxReaders .read
  step := step width maxReaders

/-- The call has run into the assertion of `release` or into `unreachable!("rwlock semaphore
closed")`. -/
def fails : Option Outcome → Bool
  | some .releaseTooLarge | some (.refused .closed) => true
  | _ => false

end Xutex.RwLock
