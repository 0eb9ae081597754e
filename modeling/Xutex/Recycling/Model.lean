/-
**Mutexes and wait queues around one pool.**

Queues are heap objects that are never freed: a primitive takes one from the global pool when its
first waiter comes and gives it back when the last one has left, and the next primitive to ask may
be any other. `step` runs any number of mutexes (`Mutex.step`) and wait queues (`Queue.step`) over
one `memory`, step by step and in any order, with the pool of `xutex-pool` between them.

A party belongs to one primitive, its `home`: a thread that uses several is several parties. The
pool is a FIFO queue of addresses, unpublished until `init_pool` has won its race, and the memory a
queue lies in is not touched by the pool: a queue that is popped holds what it held when it was
pushed. `hand` is the queue a party has unpublished and not yet pushed back; `deallocate_queue` is
the last thing its call does.
-/

import Xutex.Mutex.Model
import Xutex.Recycling.Queue

set_option linter.unusedSectionVars false

namespace Xutex.Recycling

open Concurrency PointerWidth

/-! ### The state -/

/-- The pool, the heap, and the primitives. -/
structure State (κ ω ι : Type) where
  /-- `POOL`, null at first. -/
  pool : Option (List ℕ)
  /-- The addresses of all the queues there are. -/
  boxes : List ℕ
  /-- The contents of the queues. -/
  memory : ℕ → List ι
  mutex : κ → Mutex.State ι
  queue : ω → Queue.State ι
  hand : ι → Option ℕ

/-- One step of the program. `fresh` is where the heap puts new queues. -/
inductive Label (ι : Type)
  | initPool (fresh : List ℕ)
  | mutex (party : ι) (move : Mutex.Move)
  | queue (party : ι) (move : Queue.Move ι)
  | allocate (party : ι) (fresh : ℕ)
  | deallocate (party : ι)
  deriving DecidableEq

/-- The number of queues `init_pool` starts with. -/
def prefill (parallelism : ℕ) : ℕ := min (parallelism * 16) 128

section Functions

variable {κ ω ι : Type} [DecidableEq κ] [DecidableEq ω] [DecidableEq ι]

namespace State

variable (state : State κ ω ι)

/-- A mutex, with the memory its queue lies in. -/
def mutexAt (index : κ) : Mutex.State ι := { state.mutex index with queues := state.memory }

/-- A wait queue, with the memory its queue lies in. -/
def queueAt (index : ω) : Queue.State ι := { state.queue index with queues := state.memory }

/-- A mutex has made a step. -/
def setMutex (index : κ) (next : Mutex.State ι) : State κ ω ι :=
  { state with mutex := Function.update state.mutex index next, memory := next.queues }

/-- A wait queue has made a step. -/
def setQueue (index : ω) (next : Queue.State ι) : State κ ω ι :=
  { state with queue := Function.update state.queue index next, memory := next.queues }

/-- The party has unpublished a queue, or has not. -/
def setHand (party : ι) (held : Option ℕ) : State κ ω ι :=
  { state with hand := Function.update state.hand party held }

end State

/-- The queue that a step of a mutex unpublishes. -/
def mutexFrees : Mutex.Move → Mutex.Pc ι → Option ℕ
  | .advance, .unlockFree ptr => some ptr
  | _, _ => none

/-- The queue that a step of a wait queue unpublishes. -/
def queueFrees : Queue.Move ι → Queue.Pc → Option ℕ
  | .advance, .unpublish ptr => some ptr
  | _, _ => none

/-- A node is linked only into the queue of its home. -/
def linksOwn (home : ι → κ ⊕ ω) (index : ω) : Queue.Move ι → Bool
  | .withQueue (.push node) => decide (home node = .inr index)
  | _ => true

variable (width : PointerWidth) (parallelism : ℕ) (home : ι → κ ⊕ ω) (state : State κ ω ι)

/-- The winner of the race in `init_pool` publishes its pool; what the losers have built nobody
sees. -/
def initPool (fresh : List ℕ) : Option (State κ ω ι) :=
  if state.pool = none ∧ fresh.length = prefill parallelism ∧ fresh.Nodup ∧
      ∀ ptr ∈ fresh, width.IsQueue ptr ∧ ptr ∉ state.boxes then
    some { state with
      pool := some fresh
      boxes := fresh ++ state.boxes
      memory := fun ptr => if ptr ∈ fresh then [] else state.memory ptr }
  else none

/-- The caller of `allocate_queue` goes on with its queue. -/
def install (party : ι) (ptr : ℕ) : Option (State κ ω ι) :=
  match home party with
  | .inl index =>
    match (state.mutex index).pc party with
    | .allocate mode =>
      some (state.setMutex index ((state.mutexAt index).goto party (.push mode ptr)))
    | _ => none
  | .inr index =>
    match (state.queue index).pc party with
    | .allocate => some (state.setQueue index ((state.queueAt index).goto party (.locked ptr)))
    | _ => none

/-- `allocate_queue`: the pool's front queue, as it is, or a new one. -/
def allocateQueue (party : ι) (fresh : ℕ) : Option (State κ ω ι) :=
  match state.pool with
  | none => none
  | some (ptr :: rest) => install home { state with pool := some rest } party ptr
  | some [] =>
    if width.IsQueue fresh ∧ fresh ∉ state.boxes then
      install home { state with
        boxes := fresh :: state.boxes
        memory := Function.update state.memory fresh [] } party fresh
    else none

/-- `deallocate_queue`. -/
def deallocateQueue (party : ι) : Option (State κ ω ι) :=
  match state.hand party, state.pool with
  | some ptr, some pool => some ({ state with pool := some (pool ++ [ptr]) }.setHand party none)
  | _, _ => none

/-- A step of a mutex. Its allocations are answered by the pool. -/
def mutexStep (party : ι) (move : Mutex.Move) : Option (State κ ω ι) :=
  match home party, move with
  | _, .allocate _ => none
  | .inl index, move =>
    if state.hand party = none then
      (Mutex.step width (state.mutexAt index) (party, move)).map fun next =>
        (state.setMutex index next).setHand party (mutexFrees move ((state.mutex index).pc party))
    else none
  | .inr _, _ => none

/-- A step of a wait queue. -/
def queueStep (party : ι) (move : Queue.Move ι) : Option (State κ ω ι) :=
  match home party with
  | .inl _ => none
  | .inr index =>
    if state.hand party = none ∧ linksOwn home index move then
      (Queue.step width (state.queueAt index) (party, move)).map fun next =>
        (state.setQueue index next).setHand party (queueFrees move ((state.queue index).pc party))
    else none

/-- The step of a label. -/
def step : Label ι → Option (State κ ω ι)
  | .initPool fresh => initPool width parallelism state fresh
  | .mutex party move => mutexStep width home state party move
  | .queue party move => queueStep width home state party move
  | .allocate party fresh => allocateQueue width home state party fresh
  | .deallocate party => deallocateQueue state party

end Functions

/-- No queue has been made, and nobody has called anything. -/
def start {κ ω ι : Type} : State κ ω ι where
  pool := none
  boxes := []
  memory _ := []
  mutex _ := Mutex.start fun _ => []
  queue _ := Queue.start fun _ => []
  hand _ := none

/-- **The primitives of a program and the pool they share.** -/
def machine {κ ω ι : Type} [DecidableEq κ] [DecidableEq ω] [DecidableEq ι] (width : PointerWidth)
    (parallelism : ℕ) (home : ι → κ ⊕ ω) : System (State κ ω ι) (Label ι) where
  init state := state = start
  step := step width parallelism home

end Xutex.Recycling
