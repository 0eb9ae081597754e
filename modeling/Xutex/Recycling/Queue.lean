/-
**The pointer of a wait queue.**

`WaitQueue` in the other modules is a list behind a lock, which is what it is for. Here it is what
`wait_queue.rs` makes of it: a pointer that is null, `UPDATING`, a queue or a tagged queue. One step
is one access to the pointer, or one operation of the holder on the contents of its queue; a pointer
that was loaded is kept across the steps of other threads and may be stale when it is used.

* `lockNext` — what the loop of `WaitQueue::lock` does with a pointer it has read, from the load or
  from a failed CAS.
* `withQueue` — a closure of `with_queue` is a sequence of operations of `SignalQueue`; one of them
  is one step.
* `step` — `lock(true)`, `lock(false)`, `with_queue` and `unlock`. Where the queue comes from and
  where it goes is up to the pool: `allocate` waits for its answer, and the last store of `unlock`
  gives the empty queue away.
-/

import Xutex.Core.Pointer
import Xutex.Core.SignalQueue

set_option linter.unusedSectionVars false

namespace Xutex.Recycling

open PointerWidth
open SignalQueue (Op)

namespace Queue

/-! ### The state -/

/-- Where a thread is. -/
inductive Pc
  | idle
  -- `WaitQueue::lock`
  | load (alloc : Bool)
  | check
  | init
  | tag (alloc : Bool) (ptr : ℕ)
  | allocate
  -- a `LockedQueue`
  | locked (ptr : ℕ)
  | onEmpty (ptr : ℕ)
  | unpublish (ptr : ℕ)
  | publish (ptr : ℕ)
  deriving DecidableEq, Repr

/-- The wait queue and its threads. -/
structure State (ι : Type) where
  /-- The atomic `ptr` of the wait queue. -/
  word : ℕ
  /-- The contents of the queues, by address. -/
  queues : ℕ → List ι
  pc : ι → Pc

/-- What a thread can be asked to do. -/
inductive Move (ι : Type)
  | lock (alloc : Bool)
  | withQueue (op : Op ι)
  | unlock
  | advance
  deriving DecidableEq, Repr

/-- A thread and its move. -/
abbrev Label (ι : Type) := ι × Move ι

section Functions

variable {ι : Type} [DecidableEq ι] (width : PointerWidth) (state : State ι) (party : ι)

/-- The thread goes on at `pc`. -/
@[simp] def State.goto (pc : Pc) : State ι := { state with pc := Function.update state.pc party pc }

/-! ### Locking -/

/-- What the loop of `lock` does next with the pointer it has read. -/
def lockNext (alloc : Bool) (ptr : ℕ) : Pc :=
  if ptr = unlocked then (if alloc then .init else .check)
  else if ptr = width.updating then .load alloc
  else if (untagPointer width ptr).2 then .load alloc
  else .tag alloc (untagPointer width ptr).1

/-- The CAS `NULL -> NULL` of `lock(false)`, which answers `None` when it succeeds. -/
def check : State ι :=
  if state.word = unlocked then state.goto party .idle
  else state.goto party (lockNext width false state.word)

/-- The CAS `NULL -> UPDATING` of `lock(true)`. -/
def init : State ι :=
  if state.word = unlocked then { state with word := width.updating }.goto party .allocate
  else state.goto party (lockNext width true state.word)

/-- The CAS that tags the queue. -/
def tag (alloc : Bool) (ptr : ℕ) : State ι :=
  if state.word = ptr then { state with word := tagPointer ptr }.goto party (.locked ptr)
  else state.goto party (lockNext width alloc state.word)

/-! ### A locked queue -/

/-- `with_queue`. `SignalQueue::push` asks for a node that is not linked. -/
def withQueue (ptr : ℕ) (op : Op ι) : Option (State ι) :=
  let work : State ι :=
    { state with queues := Function.update state.queues ptr (op.run (state.queues ptr)).1 }
  match op with
  | .push node => if node ∈ state.queues ptr then none else some work
  | _ => some work

/-- The first step of `LockedQueue::unlock`. -/
def unlock (ptr : ℕ) : State ι :=
  state.goto party (if (state.queues ptr).isEmpty then .onEmpty ptr else .publish ptr)

/-- The next step of the call a thread is in. -/
def advance : Option (State ι) :=
  match state.pc party with
  | .idle | .locked _ | .allocate => none
  | .load alloc => some (state.goto party (lockNext width alloc state.word))
  | .check => some (check width state party)
  | .init => some (init width state party)
  | .tag alloc ptr => some (tag width state party alloc ptr)
  -- `on_empty` works on the word of the primitive, which is not part of the queue
  | .onEmpty ptr => some (state.goto party (.unpublish ptr))
  | .unpublish _ => some ({ state with word := unlocked }.goto party .idle)
  | .publish ptr => some ({ state with word := ptr }.goto party .idle)

/-- A call begins, where the thread can make it. -/
def begin : Move ι → Option (State ι)
  | .lock alloc => if state.pc party = .idle then some (state.goto party (.load alloc)) else none
  | .withQueue op =>
    match state.pc party with
    | .locked ptr => withQueue state ptr op
    | _ => none
  | .unlock =>
    match state.pc party with
    | .locked ptr => some (unlock state party ptr)
    | _ => none
  | .advance => none

end Functions

/-- The step of a label. -/
def step {ι : Type} [DecidableEq ι] (width : PointerWidth) (state : State ι) (label : Label ι) :
    Option (State ι) :=
  match label.2 with
  | .advance => advance width state label.1
  | move => begin state label.1 move

/-- `WaitQueue::new()`, and threads that have not called it. -/
def start {ι : Type} (queues : ℕ → List ι) : State ι where
  word := unlocked
  queues := queues
  pc _ := .idle

end Queue

end Xutex.Recycling
