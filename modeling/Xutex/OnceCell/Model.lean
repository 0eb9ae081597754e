/-
**The once-cell: one initializer, waiters that take over.**

`OnceCore` (`once_cell.rs`) is a word that is `EMPTY`, `RUNNING` or `READY` and a wait queue. A
caller that moves the word from `EMPTY` to `RUNNING` is the initializer: it runs its closure, writes
the slot, moves the word to `READY` and signals every waiter with `SIGNAL_SIGNALED`; or it fails,
moves the word back to `EMPTY` and signals one waiter with `SIGNAL_RETRY`, which contends again. The
others park while the word is `RUNNING`. A waiter that was told to retry and is dropped tells the
next one.

Every party is a thread, or a future of `get_or_init` or `get_or_try_init`, and makes one call at a
time. User code is the party's own move (`UserAct`): a closure returns, fails or panics, a user
future also answers `Pending`, and its destructor may panic. `take` needs the cell for itself:
nobody is in a call and no future is alive.

One step of `step` is one access to shared memory, together with the work on the party's own data
that follows it; work on the queue is done by the holder of the tag-lock, in a step of its own. The
reference that a call returns is read in a step of its own (`valueRef`): nothing checks then that
the slot is initialized.

History: `written` and `returned` are the values written to the slot and read through returned
references since the last `take`; `started` counts how often the closure of the party's call was
started; `retried` marks a party that has consumed `SIGNAL_RETRY` and has not parked again, become
the initializer or found the cell ready; `leaked` says that the destructor of a user future has
panicked inside a poll.
-/

import Mathlib.Data.Fintype.Basic
import Xutex.Concurrency.Runs
import Xutex.Core.Signal
import Xutex.Core.WaitQueue

namespace Xutex.OnceCell

open Concurrency

/-! ### The state -/

/-- The word of `OnceCore`: `EMPTY`, `RUNNING` or `READY`. -/
inductive Phase
  | empty
  | running
  | ready
  deriving DecidableEq, Repr

/-- What a call reports: its result, or the panic it ends in. A returned reference is what the slot
holds. -/
inductive Outcome (V : Type)
  | value (slot : Option V)
  | absent
  | stored
  | alreadyInitialized (value : V)
  | initializing (value : V)
  | failed
  | panicked
  | closureConsumed
  | futureMissing
  | polledAfterCompletion
  | taken (slot : Option V)
  deriving DecidableEq, Repr

/-- Where `complete`, `abort` or `wake_one_retry` returns to. -/
inductive After
  | stored
  | syncValue
  | pollValue
  | syncFailed
  | syncPanicked
  | pollFailed
  | dropped
  deriving DecidableEq, Repr

/-- Where an `unlock` of the queue returns to. -/
inductive Unlock (ι : Type)
  | drained (chain : List ι) (after : After)
  | popped (node : Option ι) (after : After)
  | state (mode : Mode)
  | enqueued (mode : Mode)
  | removed (found : Bool)
  deriving DecidableEq, Repr

/-- Where a party is. `idle` has no future and runs nothing, `future` owns a future that is not
being polled. -/
inductive Pc (ι V : Type)
  | idle
  | future
  -- `get`, also as the start of `get_or_try_init_sync`
  | getLoad
  | initGet
  -- `get_or_try_init_sync_slow` and the user's closure in it
  | syncLoad
  | syncBegin
  | closure
  -- `set`
  | setBegin (value : V)
  -- `write_and_complete` and `complete`
  | writeSlot (value : V) (after : After)
  | completeSwap (after : After)
  | completeLock (after : After)
  | completeDrain (after : After)
  -- `abort` and `wake_one_retry`
  | abortSwap (after : After)
  | retryLock (after : After)
  | retryPop (after : After)
  -- `enqueue_or_state`
  | enqueueLock (mode : Mode)
  | enqueueCheck (mode : Mode)
  | enqueuePush (mode : Mode)
  -- `LockedQueue::unlock`
  | unlock (back : Unlock ι)
  -- `signal_node` and `signal_all`
  | signalTake (node : ι) (rest : List ι) (retry : Bool) (after : After)
  | signalPublish (node : ι) (rest : List ι) (retry : Bool) (after : After)
  -- the parked thread in `get_or_try_init_sync_slow`
  | syncSwap
  | syncPark
  -- `poll_wait`, and `rearm` in it
  | waitLoad (waker : Waker)
  | stateLoad (waker : Waker)
  | beginInit (waker : Waker)
  | rearmRegister (waker : Waker)
  | rearmLoad (waker : Waker)
  -- the user's closure, future and destructor in a poll
  | produce
  | drive
  | dropFut (result : Option V)
  -- `cancel_wait`
  | cancelLock
  | cancelRemove
  | cancelWait
  -- `value_ref`
  | valueRef (polled : Bool)
  deriving DecidableEq, Repr

/-- The cell and its parties. -/
structure State (ι V : Type) where
  /-- The atomic `state` of the core. -/
  phase : Phase
  /-- The `value` of the cell; `none` is uninitialized memory. -/
  slot : Option V
  queue : WaitQueue ι
  signal : ι → Signal
  pc : ι → Pc ι V
  /-- The call is `get_or_try_init`, whose initializer may fail. -/
  fallible : ι → Bool
  /-- The closure `f` of the call is still there. -/
  closure : ι → Bool
  /-- The user future `fut` is there. -/
  fut : ι → Bool
  initializing : ι → Bool
  /-- What the party's latest call reported. -/
  outcome : ι → Option (Outcome V)
  /-- History: the values written to the slot since the last `take`. -/
  written : List V
  /-- History: what was read through the returned references since the last `take`. -/
  returned : List (Option V)
  /-- History: how often the closure of the party's call was started. -/
  started : ι → ℕ
  /-- History: the party has consumed a retry and still contends. -/
  retried : ι → Bool
  /-- History: the destructor of a user future has panicked inside a poll. -/
  leaked : Bool

/-- What user code does when it is its turn. -/
inductive UserAct (V : Type)
  | done
  | value (value : V)
  | error
  | pending
  | panic
  deriving DecidableEq, Repr

/-- What a party can be asked to do. -/
inductive Move (V : Type)
  | get
  | set (value : V)
  | getOrInit (fallible : Bool)
  | create (fallible : Bool)
  | poll (waker : Waker)
  | drop
  | take
  | user (act : UserAct V)
  | advance
  deriving DecidableEq, Repr

/-- A party and its move. -/
abbrev Label (ι V : Type) := ι × Move V

namespace State

variable {ι V : Type} [DecidableEq ι]

/-- The party goes on at `pc`. -/
@[simp] def goto (state : State ι V) (party : ι) (pc : Pc ι V) : State ι V :=
  { state with pc := Function.update state.pc party pc }

/-- The party's node is replaced. -/
@[simp] def setSignal (state : State ι V) (party : ι) (node : Signal) : State ι V :=
  { state with signal := Function.update state.signal party node }

/-- The party's call reports `outcome`. -/
@[simp] def report (state : State ι V) (party : ι) (outcome : Outcome V) : State ι V :=
  { state with outcome := Function.update state.outcome party (some outcome) }

/-- The party has consumed a retry, or its contention is over. -/
@[simp] def setRetried (state : State ι V) (party : ι) (retried : Bool) : State ι V :=
  { state with retried := Function.update state.retried party retried }

@[simp] def setInitializing (state : State ι V) (party : ι) (initializing : Bool) : State ι V :=
  { state with initializing := Function.update state.initializing party initializing }

@[simp] def setFut (state : State ι V) (party : ι) (fut : Bool) : State ι V :=
  { state with fut := Function.update state.fut party fut }

/-- The closure is taken and called. -/
@[simp] def startClosure (state : State ι V) (party : ι) : State ι V :=
  { state with
    closure := Function.update state.closure party false
    started := Function.update state.started party (state.started party + 1) }

end State

/-- The party runs nothing and owns no future. -/
def Pc.isIdle {ι V : Type} : Pc ι V → Bool
  | .idle => true
  | _ => false

/-! ### Completing and aborting -/

section Functions

variable {ι V : Type} [DecidableEq ι] (state : State ι V) (party : ι)

/-- The return from `complete`, `abort` or `wake_one_retry`. -/
def finish : After → State ι V
  | .stored => (state.report party .stored).goto party .idle
  | .syncValue => state.goto party (.valueRef false)
  | .pollValue => state.goto party (.valueRef true)
  | .syncFailed => (state.report party .failed).goto party .idle
  | .syncPanicked => (state.report party .panicked).goto party .idle
  | .pollFailed => (state.report party .failed).goto party .future
  | .dropped => state.goto party .idle

/-- `value_ref`, and the return of the reference. -/
def valueRef (polled : Bool) : State ι V :=
  ({ state with returned := state.returned ++ [state.slot] }.report party (.value state.slot)).goto
    party (if polled then .future else .idle)

/-- `try_begin_init`. -/
def tryBeginInit : Option (State ι V) :=
  if state.phase = .empty then some ({ state with phase := .running }.setRetried party false) else
    none

/-- The write of `write_and_complete`. -/
def writeSlot (value : V) (after : After) : State ι V :=
  { state with slot := some value, written := state.written ++ [value] }.goto party
    (.completeSwap after)

/-- The swap of `complete`. -/
def completeSwap (after : After) : State ι V :=
  { state with phase := .ready }.goto party (.completeLock after)

/-- `queue.lock(false)` of `complete`. -/
def completeLock (after : After) : Option (State ι V) :=
  match state.queue.lock party false with
  | .spin => none
  | .absent => some (finish state party after)
  | .acquired locked => some ({ state with queue := locked }.goto party (.completeDrain after))

/-- `complete` under the tag-lock: every node is popped. -/
def completeDrain (after : After) : State ι V :=
  { state with queue := state.queue.leave [] }.goto party
    (.unlock (.drained state.queue.entries after))

/-- The swap of `abort`. -/
def abortSwap (after : After) : State ι V :=
  { state with phase := .empty }.goto party (.retryLock after)

/-- `queue.lock(false)` of `wake_one_retry`. -/
def retryLock (after : After) : Option (State ι V) :=
  match state.queue.lock party false with
  | .spin => none
  | .absent => some (finish state party after)
  | .acquired locked => some ({ state with queue := locked }.goto party (.retryPop after))

/-- `SignalQueue::pop` of `wake_one_retry`. -/
def retryPop (after : After) : State ι V :=
  match state.queue.entries with
  | [] => state.goto party (.unlock (.popped none after))
  | front :: rest =>
    { state with queue := state.queue.leave rest }.goto party (.unlock (.popped (some front) after))

/-- What `signal_node` writes. -/
def signalValue : Bool → SignalValue
  | false => .signaled
  | true => .retry

/-- The next node of `signal_all`, or the return. -/
def signalNext (retry : Bool) (after : After) : List ι → State ι V
  | [] => finish state party after
  | node :: rest => state.goto party (.signalTake node rest retry after)

/-- `waker.take` of `signal_node`. -/
def signalTake (node : ι) (rest : List ι) (retry : Bool) (after : After) : State ι V :=
  (state.setSignal node (state.signal node).take).goto party (.signalPublish node rest retry after)

/-- The value store of `signal_node`; waking the owner touches nothing shared. -/
def signalPublish (node : ι) (rest : List ι) (retry : Bool) (after : After) : State ι V :=
  signalNext (state.setSignal node ((state.signal node).setValue (signalValue retry)))
    party retry after rest

/-! ### Parking -/

/-- `queue.lock(true)` of `enqueue_or_state`. -/
def enqueueLock (mode : Mode) : Option (State ι V) :=
  match state.queue.lock party true with
  | .acquired locked => some ({ state with queue := locked }.goto party (.enqueueCheck mode))
  | .spin | .absent => none

/-- The `fetch_add(0)` of `enqueue_or_state`. -/
def enqueueCheck (mode : Mode) : State ι V :=
  if state.phase = .running then state.goto party (.enqueuePush mode)
  else state.goto party (.unlock (.state mode))

/-- `SignalQueue::push` of the own node. -/
def enqueuePush (mode : Mode) : State ι V :=
  ({ state with queue := state.queue.push party }.setRetried party false).goto party
    (.unlock (.enqueued mode))

/-- The queue is unlocked, the caller goes on. -/
def unlocked : Unlock ι → State ι V
  | .drained chain after => signalNext state party false after chain
  | .popped none after => finish state party after
  | .popped (some node) after => state.goto party (.signalTake node [] true after)
  | .state .wait => state.goto party .syncLoad
  | .state (.poll waker) =>
    (state.setSignal party (state.signal party).reset).goto party (.waitLoad waker)
  | .enqueued .wait => state.goto party .syncSwap
  | .enqueued (.poll _) => state.goto party .future
  | .removed true => state.goto party .idle
  | .removed false => state.goto party .cancelWait

/-! ### The blocking calls -/

/-- The load of `get`. -/
def getLoad : State ι V :=
  if state.phase = .ready then state.goto party (.valueRef false)
  else (state.report party .absent).goto party .idle

/-- The load of `get` in `get_or_try_init_sync`. -/
def initGet : State ι V :=
  if state.phase = .ready then state.goto party (.valueRef false) else state.goto party .syncLoad

/-- The load at the top of the loop of `get_or_try_init_sync_slow`; a thread that is to park makes
its node. -/
def syncLoad : State ι V :=
  match state.phase with
  | .ready => (state.setRetried party false).goto party (.valueRef false)
  | .empty => state.goto party .syncBegin
  | .running => (state.setSignal party .newSync).goto party (.enqueueLock .wait)

/-- `try_begin_init` of `get_or_try_init_sync_slow`. Without the closure the unwrap would panic
under the guard. -/
def syncBegin : State ι V :=
  match tryBeginInit state party with
  | none => state.goto party .syncLoad
  | some begun =>
    if begun.closure party then (begun.startClosure party).goto party .closure
    else begun.goto party (.abortSwap .syncPanicked)

/-- The wait of a thread ends with the value it has read, and the loop starts again. -/
def syncFinal (value : SignalValue) : State ι V :=
  (state.setRetried party (decide (value = .retry))).goto party .syncLoad

/-- The swap of `get_or_try_init_sync_slow`. -/
def syncSwap : State ι V :=
  let value := (state.signal party).value
  let swapped := state.setSignal party ((state.signal party).setValue .initWaiting)
  if value.isFinal then syncFinal swapped party value else swapped.goto party .syncPark

/-- The load after `park`, which may also return without being unparked. -/
def syncPark : Option (State ι V) :=
  let value := (state.signal party).value
  if value.isFinal then some (syncFinal state party value) else none

/-- `try_begin_init` of `set`. -/
def setBegin (value : V) : State ι V :=
  match tryBeginInit state party with
  | some begun => begun.goto party (.writeSlot value .stored)
  | none =>
    if state.phase = .ready then (state.report party (.alreadyInitialized value)).goto party .idle
    else (state.report party (.initializing value)).goto party .idle

/-! ### Polling -/

/-- The future is complete. -/
def markReturned : State ι V :=
  state.setSignal party ((state.signal party).setValue .returned)

/-- The load at the top of the loop of `poll_wait`. -/
def waitLoad (waker : Waker) : State ι V :=
  match (state.signal party).value with
  | .signaled => (markReturned state party).goto party (.valueRef true)
  | .retry =>
    ((state.setSignal party (state.signal party).reset).setRetried party true).goto party
      (.stateLoad waker)
  | .initWaiting => state.goto party (.rearmRegister waker)
  | .returned => (state.report party .polledAfterCompletion).goto party .future
  | .uninit | .closed | .all => state.goto party (.stateLoad waker)

/-- The load of the word in `poll_wait`; a future that is to park arms its node. -/
def stateLoad (waker : Waker) : State ι V :=
  match state.phase with
  | .ready => ((markReturned state party).setRetried party false).goto party (.valueRef true)
  | .empty => state.goto party (.beginInit waker)
  | .running =>
    (state.setSignal party (((state.signal party).setValue .initWaiting).register waker)).goto party
      (.enqueueLock (.poll waker))

/-- `try_begin_init` of `poll_wait`: the future is the initializer and calls its closure. -/
def beginInit (waker : Waker) : State ι V :=
  match tryBeginInit state party with
  | none => state.goto party (.waitLoad waker)
  | some begun =>
    let begun := markReturned (begun.setInitializing party true) party
    if begun.closure party then (begun.startClosure party).goto party .produce
    else (begun.report party .closureConsumed).goto party .future

/-- `waker.register` of `rearm`. -/
def rearmRegister (waker : Waker) : State ι V :=
  let stored := state.setSignal party ((state.signal party).register waker)
  match (state.signal party).registered waker with
  | .armed => stored.goto party .future
  | .wasEmpty => stored.goto party (.rearmLoad waker)

/-- The load of `rearm`: a signal that has landed is read again. -/
def rearmLoad (waker : Waker) : State ι V :=
  if (state.signal party).value.isFinal then state.goto party (.waitLoad waker)
  else state.goto party .future

/-- `poll` of a future that holds the initializer role, or the start of `poll_wait`. -/
def poll (waker : Waker) : State ι V :=
  if state.initializing party then
    if state.fut party then state.goto party .drive
    else (state.report party .futureMissing).goto party .future
  else state.goto party (.waitLoad waker)

/-! ### User code -/

/-- The user's closure in `get_or_try_init_sync_slow`; a panic unwinds through `AbortOnPanic`. -/
def closureAct : UserAct V → Option (State ι V)
  | .value value => some (state.goto party (.writeSlot value .syncValue))
  | .error => if state.fallible party then some (state.goto party (.abortSwap .syncFailed)) else
    none
  | .panic => some (state.goto party (.abortSwap .syncPanicked))
  | .done | .pending => none

/-- The user's closure in `poll_wait`, which makes the user future. -/
def produceAct : UserAct V → Option (State ι V)
  | .done => some ((state.setFut party true).goto party .drive)
  | .panic => some ((state.report party .panicked).goto party .future)
  | .value _ | .error | .pending => none

/-- The poll of the user future. -/
def driveAct : UserAct V → Option (State ι V)
  | .value value => some ((state.setInitializing party false).goto party (.dropFut (some value)))
  | .error =>
    if state.fallible party then some
      ((state.setInitializing party false).goto party (.dropFut none))
    else none
  | .pending => some (state.goto party .future)
  | .panic => some ((state.report party .panicked).goto party .future)
  | .done => none

/-- `fut = None`: the destructor of the user future, which is not there afterwards either way. -/
def dropFutAct (result : Option V) : UserAct V → Option (State ι V)
  | .done =>
    some ((state.setFut party false).goto party
      (match result with
        | some value => .writeSlot value .pollValue
        | none => .abortSwap .pollFailed))
  | .panic =>
    some
      (({ state.setFut party false with leaked := true }.report party .panicked).goto party .future)
  | .value _ | .error | .pending => none

/-- User code goes on, where it is its turn. -/
def user (act : UserAct V) : Option (State ι V) :=
  match state.pc party with
  | .closure => closureAct state party act
  | .produce => produceAct state party act
  | .drive => driveAct state party act
  | .dropFut result => dropFutAct state party result act
  | _ => none

/-! ### Dropping -/

/-- `Drop` of a future; its fields are gone with it. -/
def drop : State ι V :=
  if state.initializing party then (state.setInitializing party false).goto party
    (.abortSwap .dropped)
  else
    match (state.signal party).value with
    | .uninit | .returned | .signaled => state.goto party .idle
    | .retry => state.goto party (.retryLock .dropped)
    | .initWaiting | .closed | .all => state.goto party .cancelLock

/-- `queue.lock(false)` of `cancel_wait`. -/
def cancelLock : Option (State ι V) :=
  match state.queue.lock party false with
  | .spin => none
  | .absent => some (state.goto party .cancelWait)
  | .acquired locked => some ({ state with queue := locked }.goto party .cancelRemove)

/-- `SignalQueue::remove` of the own node. -/
def cancelRemove : State ι V :=
  if party ∈ state.queue.entries then
    { state with queue := state.queue.remove party }.goto party (.unlock (.removed true))
  else state.goto party (.unlock (.removed false))

/-- The loop of `cancel_wait`, and the retry that is passed on. -/
def cancelWait : Option (State ι V) :=
  let value := (state.signal party).value
  if value.isFinal then
    some (if value = .retry then state.goto party (.retryLock .dropped) else state.goto party .idle)
  else none

/-! ### The machine -/

/-- The next step of the call a party is in; user code takes its own. -/
def advance : Option (State ι V) :=
  match state.pc party with
  | .idle | .future | .closure | .produce | .drive | .dropFut _ => none
  | .getLoad => some (getLoad state party)
  | .initGet => some (initGet state party)
  | .syncLoad => some (syncLoad state party)
  | .syncBegin => some (syncBegin state party)
  | .setBegin value => some (setBegin state party value)
  | .writeSlot value after => some (writeSlot state party value after)
  | .completeSwap after => some (completeSwap state party after)
  | .completeLock after => completeLock state party after
  | .completeDrain after => some (completeDrain state party after)
  | .abortSwap after => some (abortSwap state party after)
  | .retryLock after => retryLock state party after
  | .retryPop after => some (retryPop state party after)
  | .enqueueLock mode => enqueueLock state party mode
  | .enqueueCheck mode => some (enqueueCheck state party mode)
  | .enqueuePush mode => some (enqueuePush state party mode)
  | .unlock back => some (unlocked { state with queue := state.queue.unlock } party back)
  | .signalTake node rest retry after => some (signalTake state party node rest retry after)
  | .signalPublish node rest retry after => some (signalPublish state party node rest retry after)
  | .syncSwap => some (syncSwap state party)
  | .syncPark => syncPark state party
  | .waitLoad waker => some (waitLoad state party waker)
  | .stateLoad waker => some (stateLoad state party waker)
  | .beginInit waker => some (beginInit state party waker)
  | .rearmRegister waker => some (rearmRegister state party waker)
  | .rearmLoad waker => some (rearmLoad state party waker)
  | .cancelLock => cancelLock state party
  | .cancelRemove => some (cancelRemove state party)
  | .cancelWait => cancelWait state party
  | .valueRef polled => some (valueRef state party polled)

/-- A call of `get_or_init` or `get_or_try_init` brings its closure. -/
def bring (fallible : Bool) : State ι V :=
  { state with
    fallible := Function.update state.fallible party fallible
    closure := Function.update state.closure party true
    started := Function.update state.started party 0 }

/-- `take`, with the cell for itself. -/
def take : State ι V :=
  if state.phase = .ready then
    { state with phase := .empty, slot := none, written := [], returned := [] }.report party
      (.taken state.slot)
  else state.report party (.taken none)

/-- A call begins, where the party can make it. -/
def begin [Fintype ι] : Move V → Option (State ι V)
  | .get => if (state.pc party).isIdle then some (state.goto party .getLoad) else none
  | .set value => if (state.pc party).isIdle then some (state.goto party (.setBegin value)) else
    none
  | .getOrInit fallible =>
    if (state.pc party).isIdle then some ((bring state party fallible).goto party .initGet) else
      none
  | .create fallible =>
    if (state.pc party).isIdle then
      some
        (((((bring state party fallible).setSignal party .newNone).setInitializing party
        false).setFut party false).goto party .future)
    else none
  | .poll waker =>
    match state.pc party with
    | .future => some (poll state party waker)
    | _ => none
  | .drop =>
    match state.pc party with
    | .future => some (drop state party)
    | _ => none
  | .take => if ∀ other, (state.pc other).isIdle then some (take state party) else none
  | .user _ | .advance => none

end Functions

/-- The step of a label. -/
def step {ι V : Type} [DecidableEq ι] [Fintype ι] (state : State ι V) (label : Label ι V) :
    Option (State ι V) :=
  match label.2 with
  | .advance => advance state label.1
  | .user act => user state label.1 act
  | move => begin state label.1 move

/-- A new cell, with a value or without, and parties that have not called it. -/
def start {ι V : Type} (value : Option V) : State ι V where
  phase := if value.isSome then .ready else .empty
  slot := value
  queue := .new
  signal _ := .newNone
  pc _ := .idle
  fallible _ := false
  closure _ := false
  fut _ := false
  initializing _ := false
  outcome _ := none
  written := value.toList
  returned := []
  started _ := 0
  retried _ := false
  leaked := false

/-- **The once-cell `new_with(value)`.** -/
def machine (ι V : Type) [DecidableEq ι] [Fintype ι] : System (State ι V) (Label ι V) where
  init state := ∃ value, state = start value
  step := step

end Xutex.OnceCell
