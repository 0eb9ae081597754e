/-
**The wait-queue node: its value, its waker slot and its auxiliary word.**

`Signal` (`lib.rs`) is the node a waiter links into a wait queue. Three of its fields are shared
with signalers:

* `value` — the state word of the wait, one of the `SIGNAL_*` constants. Only their order matters to
  the code (`value >= SIGNAL_SIGNALED`: the wait is over), so they are an enumeration here;
  `isFinal_iff` and `reachesAll_iff` compare the tests with the constants.
* `waker` — the slot a signaler takes the waker from (`waker.rs`).
* `aux` — the permits still missing (semaphore) or the generation waited for (barrier, notify).

The link `next` belongs to the queue; queues are lists of nodes here.

`storeAsync`, `Signal.register` and `Signal.take` are the slot operations. A critical section of the
slot's spin lock is one step: the lock guards nothing but the slot.
-/

import Mathlib.Algebra.Group.Nat.Defs
import Mathlib.Data.Nat.Basic
import Mathlib.Tactic.Common

namespace Xutex

/-! ### The values of a node -/

/-- The `SIGNAL_*` constants, in their order. -/
inductive SignalValue
  | uninit
  | initWaiting
  | signaled
  | closed
  | all
  | retry
  | returned
  deriving DecidableEq, Repr

namespace SignalValue

/-- The constants of the source, on a machine with `bits`-bit words; `SIGNAL_RETURNED` is `!0`. -/
def code (bits : ℕ) : SignalValue → ℕ
  | uninit => 0
  | initWaiting => 1
  | signaled => 2
  | closed => 3
  | all => 4
  | retry => 5
  | returned => 2 ^ bits - 1

/-- `value >= SIGNAL_SIGNALED`: a signaler has written the outcome of the wait. -/
def isFinal : SignalValue → Bool
  | uninit | initWaiting => false
  | signaled | closed | all | retry | returned => true

/-- `value >= SIGNAL_ALL`, the test of the barrier. -/
def reachesAll : SignalValue → Bool
  | uninit | initWaiting | signaled | closed => false
  | all | retry | returned => true

theorem eight_le_twoPow {bits : ℕ} (wide : 3 ≤ bits) : 8 ≤ 2 ^ bits :=
  Nat.pow_le_pow_right (by decide : 0 < 2) wide

theorem isFinal_iff {bits : ℕ} (wide : 3 ≤ bits) (value : SignalValue) :
    value.isFinal = true ↔ signaled.code bits ≤ value.code bits := by
  have big := eight_le_twoPow wide
  cases value <;> simp [isFinal, code]
  omega

theorem reachesAll_iff {bits : ℕ} (wide : 3 ≤ bits) (value : SignalValue) :
    value.reachesAll = true ↔ all.code bits ≤ value.code bits := by
  have big := eight_le_twoPow wide
  cases value <;> simp [reachesAll, code]
  omega

end SignalValue

/-! ### The waker slot -/

/-- A waker, named by the task it wakes: `will_wake` is equality. -/
abbrev Waker := ℕ

/-- What the slot of a node holds; the handle of a `sync` slot is the thread that owns the node. -/
inductive WakerSlot
  | none
  | sync
  | async (waker : Waker)
  deriving DecidableEq, Repr

/-- Outcome of `DynamicWaker::register`. -/
inductive Registered
  | armed
  | wasEmpty
  deriving DecidableEq, Repr

/-- `store_async`: put `waker` into the slot and report whether the slot was empty. -/
def storeAsync (slot : WakerSlot) (waker : Waker) : WakerSlot × Registered :=
  match slot with
  | .none => (.async waker, .wasEmpty)
  | .sync => (.async waker, .armed)
  -- the old clone is kept when it wakes the same task
  | .async old => (.async (if old = waker then old else waker), .armed)

/-- Whatever was in the slot, the new waker is in it afterwards. -/
@[simp] theorem storeAsync_slot (slot : WakerSlot) (waker : Waker) :
    (storeAsync slot waker).1 = .async waker := by
  cases slot with
  | none => rfl
  | sync => rfl
  | async old =>
    by_cases same : old = waker <;> simp [storeAsync, same]

/-- `register` answers `WasEmpty` exactly when it found nothing. -/
theorem storeAsync_wasEmpty_iff (slot : WakerSlot) (waker : Waker) :
    (storeAsync slot waker).2 = .wasEmpty ↔ slot = .none := by
  cases slot <;> simp [storeAsync]

/-! ### The node -/

/-- A wait-queue node. -/
structure Signal where
  value : SignalValue
  waker : WakerSlot
  aux : ℕ
  deriving DecidableEq, Repr

namespace Signal

/-- `Signal::new_none`, the node of a future. -/
def newNone : Signal := ⟨.uninit, .none, 0⟩

/-- `Signal::new_sync`, the node of a blocked thread. -/
def newSync : Signal := ⟨.uninit, .sync, 0⟩

/-- `value.store`. -/
def setValue (node : Signal) (value : SignalValue) : Signal := { node with value := value }

/-- `aux.store`. -/
def setAux (node : Signal) (aux : ℕ) : Signal := { node with aux := aux }

/-- `waker.register` (and `register_unsync`): the slot afterwards. -/
def register (node : Signal) (waker : Waker) : Signal :=
  { node with waker := (storeAsync node.waker waker).1 }

/-- What `waker.register` reports. -/
def registered (node : Signal) (waker : Waker) : Registered := (storeAsync node.waker waker).2

/-- `waker.take`: the slot is left empty. -/
def take (node : Signal) : Signal := { node with waker := .none }

/-- `Signal::reset`: the node can be linked again. -/
def reset (node : Signal) : Signal := { node with value := .uninit }

@[simp] theorem setValue_value (node : Signal) (value : SignalValue) :
    (node.setValue value).value = value := rfl
@[simp] theorem setValue_aux (node : Signal) (value : SignalValue) :
    (node.setValue value).aux = node.aux := rfl
@[simp] theorem setAux_value (node : Signal) (aux : ℕ) : (node.setAux aux).value = node.value := rfl
@[simp] theorem setAux_aux (node : Signal) (aux : ℕ) : (node.setAux aux).aux = aux := rfl
@[simp] theorem register_value (node : Signal) (waker : Waker) :
    (node.register waker).value = node.value := rfl
@[simp] theorem register_aux (node : Signal) (waker : Waker) :
    (node.register waker).aux = node.aux := rfl
@[simp] theorem take_value (node : Signal) : node.take.value = node.value := rfl
@[simp] theorem take_aux (node : Signal) : node.take.aux = node.aux := rfl
@[simp] theorem reset_value (node : Signal) : node.reset.value = .uninit := rfl
@[simp] theorem reset_aux (node : Signal) : node.reset.aux = node.aux := rfl
@[simp] theorem newNone_value : newNone.value = .uninit := rfl
@[simp] theorem newSync_value : newSync.value = .uninit := rfl

end Signal

/-! ### Who waits on a node -/

/-- Who runs the code of a primitive: a blocking call with a node of its own, or a poll with its
waker. -/
inductive Mode
  | wait
  | poll (waker : Waker)
  deriving DecidableEq, Repr

def Mode.isPoll : Mode → Bool
  | .wait => false
  | .poll _ => true

/-- The node of a party that is about to wait: a thread's is new, a future's is marked waiting. -/
def armedValue : Mode → SignalValue
  | .wait => .uninit
  | .poll _ => .initWaiting

/-- A future has given its node away from the push until it has read the signal. -/
def valueWaits : SignalValue → Bool
  | .uninit | .returned => false
  | .initWaiting | .signaled | .closed | .all | .retry => true

theorem valueWaits_eq_false {value : SignalValue} :
    valueWaits value = false ↔ value = .uninit ∨ value = .returned := by
  cases value <;> simp [valueWaits]

/-- A thread's node is given away by its program point alone. -/
def modeWaits : Mode → SignalValue → Bool
  | .wait, _ => true
  | .poll _, value => valueWaits value

/-- A value that waits and is not `SIGNAL_INIT_WAITING` is final. -/
theorem isFinal_of_valueWaits {value : SignalValue} (waits : valueWaits value = true)
    (different : value ≠ .initWaiting) : value.isFinal = true := by
  cases value <;> simp_all [SignalValue.isFinal, valueWaits]

theorem modeWaits_armedValue (mode : Mode) : modeWaits mode (armedValue mode) = true := by
  cases mode <;> rfl

theorem armedValue_unsignalled (mode : Mode) : (armedValue mode).isFinal = false := by
  cases mode <;> rfl

end Xutex
