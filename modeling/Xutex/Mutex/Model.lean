/-
**The mutex: one word for the lock, the queue and the lock of the queue.**

`MutexInternal` (`lib.rs`) is a single pointer. Null is unlocked, `LOCKED` is locked with nobody
waiting, a queue is locked with waiters; `UPDATING` and a tagged queue are locked by an owner while
some other party fills or edits the queue. `lock_slow` and `enqueue` contend for the lock in the
same loop and link their node when they lose, the drop of a guard hands the lock to the front waiter
or frees the empty queue, and the drop of a pending request unlinks its node or waits for the
hand-off it cannot stop.

A party is a thread or a lock request; it runs one call at a time. Guards are values that may be
dropped anywhere, so the state only counts them. One step of `step` is one access to shared memory,
together with the work on the party's own data that follows it; an access to a queue is the work of
the party that tagged it, a step of its own. `queues` is the memory the queues live in, and stale
pointers are followed as the code follows them. Waking a task or a thread touches nothing shared.
-/

import Xutex.Concurrency.Runs
import Xutex.Core.Pointer
import Xutex.Core.Signal

namespace Xutex.Mutex

open Concurrency PointerWidth

/-! ### The state -/

/-- What a call reports: a guard, the refusal of `try_lock`, or the panic of a poll after
completion. -/
inductive Outcome
  | guard
  | busy
  | polledAfterCompletion
  deriving DecidableEq, Repr

/-- Where a party is. `idle` has no request and runs nothing, `future` owns a request that is not
being polled. -/
inductive Pc (ι : Type)
  | idle
  | future
  -- `try_lock`, and the fast paths of `lock` and `poll`
  | tryLock
  | lock
  | pollLock (waker : Waker)
  -- the loop of `lock_slow` and `enqueue`
  | contendLock (mode : Mode)
  | contendInit (mode : Mode)
  | contendTag (mode : Mode) (ptr : ℕ)
  | allocate (mode : Mode)
  | push (mode : Mode) (ptr : ℕ)
  | publish (mode : Mode) (ptr : ℕ) (first : Bool)
  -- the parked thread in `lock_slow`
  | waitSpin
  | waitSwap
  | waitPark
  -- `rearm` in `poll_queued`
  | rearmRegister (waker : Waker)
  | rearmLoad
  -- `AsyncLockRequest::drop_slow`
  | cancelLoad
  | cancelTag (ptr : ℕ)
  | cancelRemove (ptr : ℕ)
  | cancelUntag (ptr : ℕ) (found : Bool)
  | cancelSpin
  -- `MutexGuard::drop`
  | unlock
  | unlockReload
  | unlockTag (ptr : ℕ)
  | unlockPop (ptr : ℕ)
  | unlockUntag (ptr : ℕ) (node : ι)
  | unlockFree (ptr : ℕ)
  | signalTake (node : ι)
  | signalPublish (node : ι)
  deriving DecidableEq, Repr

/-- The mutex and its parties. -/
structure State (ι : Type) where
  /-- The atomic `queue` of the mutex. -/
  word : ℕ
  /-- The contents of the queues, by address. -/
  queues : ℕ → List ι
  /-- The node of each party. -/
  signal : ι → Signal
  pc : ι → Pc ι
  /-- The live guards that nobody is dropping. -/
  guards : ℕ
  /-- What the party's latest call reported. -/
  outcome : ι → Option Outcome

/-- What a party can be asked to do. `allocate` is the step in which `allocate_queue` answers. -/
inductive Move
  | tryLock
  | lock
  | create
  | poll (waker : Waker)
  | drop
  | dropGuard
  | allocate (ptr : ℕ)
  | advance
  deriving DecidableEq, Repr

/-- A party and its move. -/
abbrev Label (ι : Type) := ι × Move

namespace State

variable {ι : Type} [DecidableEq ι]

/-- The party goes on at `pc`. -/
@[simp] def goto (state : State ι) (party : ι) (pc : Pc ι) : State ι :=
  { state with pc := Function.update state.pc party pc }

/-- The party's node is replaced. -/
@[simp] def setSignal (state : State ι) (party : ι) (node : Signal) : State ι :=
  { state with signal := Function.update state.signal party node }

/-- The queue at `ptr` is replaced. -/
@[simp] def setQueue (state : State ι) (ptr : ℕ) (entries : List ι) : State ι :=
  { state with queues := Function.update state.queues ptr entries }

/-- The party's call reports `outcome`. -/
@[simp] def report (state : State ι) (party : ι) (outcome : Outcome) : State ι :=
  { state with outcome := Function.update state.outcome party (some outcome) }

/-- `create_guard`: a call returns a guard. -/
@[simp] def createGuard (state : State ι) (party : ι) : State ι :=
  { state.report party .guard with guards := state.guards + 1 }

end State

/-! ### Acquiring -/

section Functions

variable {ι : Type} [DecidableEq ι] (width : PointerWidth) (state : State ι) (party : ι)

/-- A thread has the lock. -/
def acquired : State ι := (state.createGuard party).goto party .idle

/-- A request has the lock and is complete. -/
def completed : State ι :=
  ((state.setSignal party ((state.signal party).setValue .returned)).createGuard party).goto
    party .future

/-- The lock is acquired in the loop of `lock_slow` or `enqueue`. -/
def contendAcquired : Mode → State ι
  | .wait => acquired state party
  | .poll _ => completed state party

/-- What the loop does next with the word `ptr` it has read. -/
def contendNext (mode : Mode) (ptr : ℕ) : Pc ι :=
  if ptr = width.updating then .contendLock mode
  else if ptr = width.locked then .contendInit mode
  else if (untagPointer width ptr).2 then .contendLock mode
  else .contendTag mode (untagPointer width ptr).1

/-- The CAS `UNLOCKED -> LOCKED` of the loop. -/
def contendLock (mode : Mode) : State ι :=
  if state.word = unlocked then contendAcquired { state with word := width.locked } party mode
  else state.goto party (contendNext width mode state.word)

/-- The CAS `LOCKED -> UPDATING`. -/
def contendInit (mode : Mode) : State ι :=
  if state.word = width.locked then { state with word := width.updating }.goto party
    (.allocate mode)
  else state.goto party (.contendLock mode)

/-- The CAS that tags the queue. -/
def contendTag (mode : Mode) (ptr : ℕ) : State ι :=
  if state.word = ptr then { state with word := tagPointer ptr }.goto party (.push mode ptr)
  else state.goto party (.contendLock mode)

/-- `allocate_queue`: an empty queue from the pool or from the heap. -/
def allocate (mode : Mode) (ptr : ℕ) : State ι :=
  (state.setQueue ptr []).goto party (.push mode ptr)

/-- `SignalQueue::push` of the own node, which reports whether it is the first. -/
def push (mode : Mode) (ptr : ℕ) : State ι :=
  (state.setQueue ptr (state.queues ptr ++ [party])).goto party
    (.publish mode ptr (state.queues ptr).isEmpty)

/-- The store that publishes the queue: a request is pending, a thread goes on to wait. -/
def publish (mode : Mode) (ptr : ℕ) (first : Bool) : State ι :=
  { state with word := ptr }.goto party
    (match mode, first with
      | .poll _, _ => .future
      | .wait, true => .waitSpin
      | .wait, false => .waitSwap)

/-- `try_lock`. -/
def tryLock : State ι :=
  if state.word = unlocked then acquired { state with word := width.locked } party
  else (state.report party .busy).goto party .idle

/-- `lock_slow` starts with a new node. -/
def lockSlow : State ι := (state.setSignal party .newSync).goto party (.contendLock .wait)

/-- `lock`: `try_lock`, then `lock_slow`. -/
def lock : State ι :=
  if state.word = unlocked then acquired { state with word := width.locked } party
  else lockSlow state party

/-- `enqueue` on the word the first CAS of `poll` has read. -/
def enqueue (waker : Waker) (ptr : ℕ) : State ι :=
  (state.setSignal party (((state.signal party).setValue .initWaiting).register waker)).goto party
    (contendNext width (.poll waker) ptr)

/-- The first CAS of `poll`. -/
def pollLock (waker : Waker) : State ι :=
  if state.word = unlocked then completed { state with word := width.locked } party
  else enqueue width state party waker state.word

/-! ### Waiting -/

/-- A load of the spin loop of `lock_slow`. The loop is left after some loads that see no signal;
all but the last of them change nothing. -/
def waitSpin : State ι :=
  if (state.signal party).value = .signaled then acquired state party
  else state.goto party .waitSwap

/-- The swap of `lock_slow`. -/
def waitSwap : State ι :=
  let swapped := state.setSignal party ((state.signal party).setValue .initWaiting)
  if (state.signal party).value = .signaled then acquired swapped party
  else swapped.goto party .waitPark

/-- The load after `park`, which may also return without being unparked. -/
def waitPark : Option (State ι) :=
  if (state.signal party).value = .signaled then some (acquired state party) else none

/-- `poll`, with the branch of `poll_queued`. -/
def poll (waker : Waker) : State ι :=
  match (state.signal party).value with
  | .uninit => state.goto party (.pollLock waker)
  | .signaled => completed state party
  | .returned => state.report party .polledAfterCompletion
  | .initWaiting | .closed | .all | .retry => state.goto party (.rearmRegister waker)

/-- `waker.register` of `rearm`. -/
def rearmRegister (waker : Waker) : State ι :=
  let stored := state.setSignal party ((state.signal party).register waker)
  match (state.signal party).registered waker with
  | .armed => stored.goto party .future
  | .wasEmpty => stored.goto party .rearmLoad

/-- The load of `rearm`: a final value completes the request. -/
def rearmLoad : State ι :=
  if (state.signal party).value.isFinal then completed state party else state.goto party .future

/-! ### Cancelling -/

/-- `Drop` of a request: a signalled one drops the guard it was handed. -/
def drop : State ι :=
  match (state.signal party).value with
  | .uninit | .returned => state.goto party .idle
  | .signaled => state.goto party .unlock
  | .initWaiting | .closed | .all | .retry => state.goto party .cancelLoad

/-- The load of `remove_from_queue`. -/
def cancelLoad : Option (State ι) :=
  if state.word = unlocked ∨ state.word = width.locked then some (state.goto party .cancelSpin)
  else if state.word = width.updating then none
  else if (untagPointer width state.word).2 then none
  else some (state.goto party (.cancelTag (untagPointer width state.word).1))

/-- The CAS of `remove_from_queue`. -/
def cancelTag (ptr : ℕ) : State ι :=
  if state.word = ptr then { state with word := tagPointer ptr }.goto party (.cancelRemove ptr)
  else state.goto party .cancelLoad

/-- `SignalQueue::remove` of the own node. -/
def cancelRemove (ptr : ℕ) : State ι :=
  (state.setQueue ptr ((state.queues ptr).erase party)).goto party
    (.cancelUntag ptr (decide (party ∈ state.queues ptr)))

/-- The store at the end of `remove_from_queue`. -/
def cancelUntag (ptr : ℕ) (found : Bool) : State ι :=
  { state with word := ptr }.goto party (if found then .idle else .cancelSpin)

/-- The loop of `AsyncLockRequest::drop_slow`, which ends in the drop of a guard. -/
def cancelSpin : Option (State ι) :=
  if (state.signal party).value = .signaled then some (state.goto party .unlock) else none

/-! ### Unlocking -/

/-- What `MutexGuard::drop_slow` does next with the word `ptr` it has read. -/
def unlockNext (ptr : ℕ) : Pc ι :=
  if ptr = width.updating ∨ ptr = width.locked then .unlockReload
  else if (untagPointer width ptr).2 then .unlockReload
  else .unlockTag (untagPointer width ptr).1

/-- The CAS `LOCKED -> UNLOCKED` of `MutexGuard::drop`. -/
def unlock : State ι :=
  if state.word = width.locked then { state with word := unlocked }.goto party .idle
  else state.goto party (unlockNext width state.word)

/-- The CAS of `MutexGuard::drop_slow`. -/
def unlockTag (ptr : ℕ) : State ι :=
  if state.word = ptr then { state with word := tagPointer ptr }.goto party (.unlockPop ptr)
  else state.goto party (unlockNext width state.word)

/-- `SignalQueue::pop`. -/
def unlockPop (ptr : ℕ) : State ι :=
  match state.queues ptr with
  | [] => state.goto party (.unlockFree ptr)
  | node :: rest => (state.setQueue ptr rest).goto party (.unlockUntag ptr node)

/-- `waker.take` of `signal_node`. -/
def signalTake (node : ι) : State ι :=
  (state.setSignal node (state.signal node).take).goto party (.signalPublish node)

/-- The value store of `signal_node`. -/
def signalPublish (node : ι) : State ι :=
  (state.setSignal node ((state.signal node).setValue .signaled)).goto party .idle

/-- The next step of the call a party is in. -/
def advance : Option (State ι) :=
  match state.pc party with
  | .idle | .future | .allocate _ => none
  | .tryLock => some (tryLock width state party)
  | .lock => some (lock width state party)
  | .pollLock waker => some (pollLock width state party waker)
  | .contendLock mode => some (contendLock width state party mode)
  | .contendInit mode => some (contendInit width state party mode)
  | .contendTag mode ptr => some (contendTag state party mode ptr)
  | .push mode ptr => some (push state party mode ptr)
  | .publish mode ptr first => some (publish state party mode ptr first)
  | .waitSpin => some (waitSpin state party)
  | .waitSwap => some (waitSwap state party)
  | .waitPark => waitPark state party
  | .rearmRegister waker => some (rearmRegister state party waker)
  | .rearmLoad => some (rearmLoad state party)
  | .cancelLoad => cancelLoad width state party
  | .cancelTag ptr => some (cancelTag state party ptr)
  | .cancelRemove ptr => some (cancelRemove state party ptr)
  | .cancelUntag ptr found => some (cancelUntag state party ptr found)
  | .cancelSpin => cancelSpin state party
  | .unlock => some (unlock width state party)
  | .unlockReload => some (state.goto party (unlockNext width state.word))
  | .unlockTag ptr => some (unlockTag width state party ptr)
  | .unlockPop ptr => some (unlockPop state party ptr)
  | .unlockUntag ptr node => some ({ state with word := ptr }.goto party (.signalTake node))
  -- the empty queue goes back to the pool, which is not part of the mutex
  | .unlockFree _ => some ({ state with word := unlocked }.goto party .idle)
  | .signalTake node => some (signalTake state party node)
  | .signalPublish node => some (signalPublish state party node)

/-- A call begins, where the party can make it, or the allocator answers. -/
def begin : Move → Option (State ι)
  | .tryLock => if state.pc party = .idle then some (state.goto party .tryLock) else none
  | .lock => if state.pc party = .idle then some (state.goto party .lock) else none
  | .create =>
    if state.pc party = .idle then some ((state.setSignal party .newNone).goto party .future) else
      none
  | .poll waker => if state.pc party = .future then some (poll state party waker) else none
  | .drop => if state.pc party = .future then some (drop state party) else none
  | .dropGuard =>
    if state.pc party = .idle ∧ 0 < state.guards then
      some ({ state with guards := state.guards - 1 }.goto party .unlock)
    else none
  | .allocate ptr =>
    match state.pc party with
    | .allocate mode => if width.IsQueue ptr then some (allocate state party mode ptr) else none
    | _ => none
  | .advance => none

end Functions

/-- The step of a label. -/
def step {ι : Type} [DecidableEq ι] (width : PointerWidth) (state : State ι) (label : Label ι) :
    Option (State ι) :=
  match label.2 with
  | .advance => advance width state label.1
  | move => begin width state label.1 move

/-- A new mutex and parties that have not called it; what the pool has in its memory is open. -/
def start {ι : Type} (queues : ℕ → List ι) : State ι where
  word := unlocked
  queues := queues
  signal _ := .newNone
  pc _ := .idle
  guards := 0
  outcome _ := none

/-- **The mutex `MutexInternal::new`.** -/
def machine (ι : Type) [DecidableEq ι] (width : PointerWidth) : System (State ι) (Label ι) where
  init state := ∃ queues, state = start queues
  step := step width

end Xutex.Mutex
