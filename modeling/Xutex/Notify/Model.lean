/-
**The notifier: waits, single notifications and broadcasts.**

`NotifyCore` (`notify.rs`) keeps the generation, the stored permit and the queue flag in one word
and its waiters in a wait queue. A wait captures the generation when it begins and is over when a
permit is stored, when the generation has moved on, or when it is signalled. `notify_one` pops the
front waiter, or stores the permit; `notify_waiters` advances the generation in one step and pops
the waiters of older generations in a later one, under the tag-lock. A future that was picked by
`notify_one` and is dropped notifies again.

Every party is a thread or a `notified` future and runs one call at a time. One step of `step` is
one access to shared memory, together with the work on the party's own data that follows it; work on
the queue is done by the holder of the tag-lock, in a step of its own. A failed
`compare_exchange_weak` hands back the current word, so a spurious failure changes nothing and is
left out; the strong one of `notify_one` goes on to the slow path.

History: `broadcasts` counts the calls that advanced the generation; `issued`, `merged` and
`consumed` count the notifications that were stored or popped a waiter, those passed on that found a
permit, and the waits that used one up.
-/

import Xutex.Concurrency.Runs
import Xutex.Core.Signal
import Xutex.Core.WaitQueue
import Xutex.Notify.Word

namespace Xutex.Notify

open Concurrency

/-! ### The state -/

/-- What a call reports: the end of a wait, or the panic of a poll after completion. -/
inductive Outcome
  | completed
  | polledAfterCompletion
  deriving DecidableEq, Repr

/-- Who runs `try_complete`. -/
inductive Attempt
  | wait
  | poll (waker : Waker)
  | pollSlow (waker : Waker)
  deriving DecidableEq, Repr

/-- Where an `unlock` of the queue returns to. `passed` says that a dropped future runs
`notify_one`. -/
inductive Unlock (ι : Type)
  | completed (mode : Mode)
  | enqueued (mode : Mode)
  | popped (passed : Bool) (node : Option ι)
  | drained (chain : List ι)
  | removed (found : Bool)
  deriving DecidableEq, Repr

/-- Where a party is. `idle` has no future and runs nothing, `future` owns a future that is not
being polled. -/
inductive Pc (ι : Type)
  | idle
  | future
  -- `try_complete`
  | tryLoad (attempt : Attempt)
  | tryCas (attempt : Attempt) (cur : ℕ)
  -- `enqueue_or_complete`
  | enqueueLock (mode : Mode)
  | enqueueFlag (mode : Mode)
  | enqueueCas (mode : Mode) (cur : ℕ)
  | enqueuePush (mode : Mode)
  -- `notify_one` and `notify_one_slow`
  | notifyLoad (passed : Bool)
  | notifyCas (passed : Bool) (cur : ℕ)
  | notifySlow (passed : Bool)
  | notifyLock (passed : Bool)
  | notifyPop (passed : Bool)
  | notifySlowCas (passed : Bool) (cur : ℕ)
  -- `notify_waiters`
  | broadcastAdd
  | broadcastLock (prev : ℕ)
  | broadcastLoad (prev : ℕ)
  | broadcastDrain (liveGen : ℕ)
  -- `LockedQueue::unlock`
  | unlock (back : Unlock ι)
  | unlockStore (back : Unlock ι)
  -- `signal_node` and `signal_all`
  | signalTake (node : ι) (rest : List ι) (all : Bool)
  | signalPublish (node : ι) (rest : List ι) (all : Bool)
  -- the parked thread in `wait_slow`
  | waitSwap
  | waitPark
  -- `rearm` in `poll_slow`
  | rearmRegister (waker : Waker)
  | rearmLoad (waker : Waker)
  -- `drop_slow`
  | cancelLock
  | cancelRemove
  | cancelWait
  deriving DecidableEq, Repr

/-- The notifier and its parties. -/
structure State (ι : Type) where
  /-- The atomic `state` of the core. -/
  word : ℕ
  queue : WaitQueue ι
  signal : ι → Signal
  /-- The `captured_gen` of the party's wait. -/
  captured : ι → ℕ
  pc : ι → Pc ι
  /-- What the party's latest call reported. -/
  outcome : ι → Option Outcome
  /-- History: the broadcasts so far. -/
  broadcasts : ℕ
  /-- History: the calls of `notify_one` from outside that stored a permit or popped a waiter. -/
  issued : ℕ
  /-- History: the notifications passed on by a dropped future that found a permit stored. -/
  merged : ℕ
  /-- History: the waits that ended with a permit or with `SIGNAL_SIGNALED`. -/
  consumed : ℕ

/-- What a party can be asked to do. -/
inductive Move
  | wait
  | create
  | poll (waker : Waker)
  | drop
  | notifyOne
  | notifyWaiters
  | advance
  deriving DecidableEq, Repr

/-- A party and its move. -/
abbrev Label (ι : Type) := ι × Move

namespace State

variable {ι : Type} [DecidableEq ι]

/-- The party goes on at `pc`. -/
@[simp] def goto (state : State ι) (party : ι) (pc : Pc ι) : State ι :=
  { state with pc := Function.update state.pc party pc }

/-- The party's node is replaced. -/
@[simp] def setSignal (state : State ι) (party : ι) (node : Signal) : State ι :=
  { state with signal := Function.update state.signal party node }

/-- The party's call reports `outcome`. -/
@[simp] def report (state : State ι) (party : ι) (outcome : Outcome) : State ι :=
  { state with outcome := Function.update state.outcome party (some outcome) }

/-- The wait that ends used up a notification. -/
@[simp] def consume (state : State ι) (used : Bool) : State ι :=
  { state with consumed := state.consumed + used.toNat }

/-- A call of `notify_one` has stored a permit or popped a waiter; one that was passed on is no new
notification. -/
@[simp] def issue (state : State ι) (passed : Bool) : State ι :=
  { state with issued := state.issued + (!passed).toNat }

/-- A call of `notify_one` has found a permit. -/
@[simp] def merge (state : State ι) (passed : Bool) : State ι :=
  { state with merged := state.merged + passed.toNat }

end State

/-! ### Completing a wait -/

section Functions

variable {ι : Type} [DecidableEq ι] (width : PointerWidth) (state : State ι) (party : ι)

/-- The wait is over: a future is complete. -/
def completed : Mode → State ι
  | .wait => (state.report party .completed).goto party .idle
  | .poll _ =>
    ((state.setSignal party ((state.signal party).setValue .returned)).report party .completed).goto
      party .future

/-- `try_complete` has answered `true`. -/
def tryTrue : Attempt → State ι
  | .wait => completed state party .wait
  | .poll waker | .pollSlow waker => completed state party (.poll waker)

/-- `try_complete` has answered `false`: a thread makes its node, a future arms its own. -/
def tryFalse : Attempt → State ι
  | .wait => (state.setSignal party .newSync).goto party (.enqueueLock .wait)
  | .poll waker => state.goto party (.tryLoad (.pollSlow waker))
  | .pollSlow waker =>
    (state.setSignal party (((state.signal party).setValue .initWaiting).register waker)).goto party
      (.enqueueLock (.poll waker))

/-- What the loop of `try_complete` does with a word it has read. -/
def tryNext (attempt : Attempt) (cur : ℕ) : State ι :=
  if generation cur ≠ state.captured party then tryTrue state party attempt
  else if hasPermit cur then state.goto party (.tryCas attempt cur)
  else tryFalse state party attempt

/-- The CAS of `try_complete`. -/
def tryCas (attempt : Attempt) (cur : ℕ) : State ι :=
  if state.word = cur then
    tryTrue ({ state with word := clearPermit width cur }.consume true) party attempt
  else tryNext state party attempt state.word

/-- `queue.lock(true)` of `enqueue_or_complete`. -/
def enqueueLock (mode : Mode) : Option (State ι) :=
  match state.queue.lock party true with
  | .acquired locked => some ({ state with queue := locked }.goto party (.enqueueFlag mode))
  | .spin | .absent => none

/-- What the loop of `enqueue_or_complete` does with a word it has read. -/
def enqueueNext (mode : Mode) (cur : ℕ) : Pc ι :=
  if generation cur ≠ state.captured party then .unlock (.completed mode)
  else if hasPermit cur then .enqueueCas mode cur
  else .enqueuePush mode

/-- The `fetch_or` of `enqueue_or_complete`. -/
def enqueueFlag (mode : Mode) : State ι :=
  { state with word := setQueue state.word }.goto party
    (enqueueNext state party mode (setQueue state.word))

/-- The CAS of `enqueue_or_complete`. -/
def enqueueCas (mode : Mode) (cur : ℕ) : State ι :=
  if state.word = cur then
    ({ state with word := clearPermit width cur }.consume true).goto party
      (.unlock (.completed mode))
  else state.goto party (enqueueNext state party mode state.word)

/-- `SignalQueue::push` of the own node, after its `aux` word was set. -/
def enqueuePush (mode : Mode) : State ι :=
  { state with
    queue := state.queue.push party
    signal := Function.update state.signal party
      ((state.signal party).setAux (state.captured party)) }.goto party (.unlock (.enqueued mode))

/-! ### Notifying -/

/-- The load of `notify_one`. -/
def notifyLoad (passed : Bool) : State ι :=
  if hasQueue state.word then state.goto party (.notifySlow passed)
  else if hasPermit state.word then (state.merge passed).goto party .idle
  else state.goto party (.notifyCas passed state.word)

/-- The CAS of `notify_one`. -/
def notifyCas (passed : Bool) (cur : ℕ) : State ι :=
  if state.word = cur then
    ({ state with word := setPermit cur }.issue passed).goto party .idle
  else state.goto party (.notifySlow passed)

/-- What the loop of `notify_one_slow` does with a word it has read. -/
def notifyNext (passed : Bool) (cur : ℕ) : State ι :=
  if hasQueue cur then state.goto party (.notifyLock passed)
  else if hasPermit cur then (state.merge passed).goto party .idle
  else state.goto party (.notifySlowCas passed cur)

/-- `queue.lock(false)` of `notify_one_slow`; a stale flag is read again. -/
def notifyLock (passed : Bool) : Option (State ι) :=
  match state.queue.lock party false with
  | .spin => none
  | .absent => some (state.goto party (.notifySlow passed))
  | .acquired locked => some ({ state with queue := locked }.goto party (.notifyPop passed))

/-- `SignalQueue::pop` of `notify_one_slow`. -/
def notifyPop (passed : Bool) : State ι :=
  match state.queue.entries with
  | [] => state.goto party (.unlock (.popped passed none))
  | front :: rest =>
    ({ state with queue := state.queue.leave rest }.issue passed).goto party
      (.unlock (.popped passed (some front)))

/-- The CAS of `notify_one_slow`. -/
def notifySlowCas (passed : Bool) (cur : ℕ) : State ι :=
  if state.word = cur then
    ({ state with word := setPermit cur }.issue passed).goto party .idle
  else notifyNext state party passed state.word

/-- The `fetch_add` of `notify_waiters`. -/
def broadcastAdd : State ι :=
  { state with
    word := addGeneration width state.word
    broadcasts := state.broadcasts + 1 }.goto party
      (if hasQueue state.word then .broadcastLock state.word else .idle)

/-- `queue.lock(false)` of `notify_waiters`. -/
def broadcastLock (prev : ℕ) : Option (State ι) :=
  match state.queue.lock party false with
  | .spin => none
  | .absent => some (state.goto party .idle)
  | .acquired locked => some ({ state with queue := locked }.goto party (.broadcastLoad prev))

/-- `notify_waiters` under the tag-lock: it pops up to the first node of the generation it has
read. -/
def broadcastDrain (liveGen : ℕ) : State ι :=
  let old node := decide ((state.signal node).aux ≠ liveGen)
  { state with queue := state.queue.leave (state.queue.entries.dropWhile old) }.goto party
    (.unlock (.drained (state.queue.entries.takeWhile old)))

/-- What `signal_node` writes. -/
def signalValue : Bool → SignalValue
  | false => .signaled
  | true => .all

/-- The next node of `signal_all`, or the end of the call. -/
def signalNext (all : Bool) : List ι → State ι
  | [] => state.goto party .idle
  | node :: rest => state.goto party (.signalTake node rest all)

/-- `waker.take` of `signal_node`. -/
def signalTake (node : ι) (rest : List ι) (all : Bool) : State ι :=
  (state.setSignal node (state.signal node).take).goto party (.signalPublish node rest all)

/-- The value store of `signal_node`; waking the owner touches nothing shared. -/
def signalPublish (node : ι) (rest : List ι) (all : Bool) : State ι :=
  signalNext (state.setSignal node ((state.signal node).setValue (signalValue all))) party all rest

/-- The queue is unlocked, the caller goes on. -/
def unlocked : Unlock ι → State ι
  | .completed mode => completed state party mode
  | .enqueued .wait => state.goto party .waitSwap
  | .enqueued (.poll _) => state.goto party .future
  | .popped passed none => state.goto party (.notifySlow passed)
  | .popped _ (some node) => state.goto party (.signalTake node [] false)
  | .drained chain => signalNext state party true chain
  | .removed true => state.goto party .idle
  | .removed false => state.goto party .cancelWait

/-- `LockedQueue::unlock`: an empty queue clears the flag before it is unpublished. -/
def unlock (back : Unlock ι) : State ι :=
  if state.queue.entries.isEmpty then
    { state with word := clearQueue width state.word }.goto party (.unlockStore back)
  else unlocked { state with queue := state.queue.unlock } party back

/-! ### Waiting -/

/-- The wait of a thread ends with the value it has read. -/
def waitFinal (value : SignalValue) : State ι :=
  completed (state.consume (decide (value = .signaled))) party .wait

/-- The swap of `wait_slow`. -/
def waitSwap : State ι :=
  let value := (state.signal party).value
  let swapped := state.setSignal party ((state.signal party).setValue .initWaiting)
  if value.isFinal then waitFinal swapped party value else swapped.goto party .waitPark

/-- The load after `park`, which may also return without being unparked. -/
def waitPark : Option (State ι) :=
  let value := (state.signal party).value
  if value.isFinal then some (waitFinal state party value) else none

/-- The end of `poll_slow` on a final value. -/
def pollFinal (waker : Waker) (value : SignalValue) : State ι :=
  if value = .returned then (state.report party .polledAfterCompletion).goto party .future
  else completed (state.consume (decide (value = .signaled))) party (.poll waker)

/-- `poll` with the branches of `poll_slow`. -/
def poll (waker : Waker) : State ι :=
  let value := (state.signal party).value
  if value = .uninit then state.goto party (.tryLoad (.poll waker))
  else if value = .initWaiting then state.goto party (.rearmRegister waker)
  else pollFinal state party waker value

/-- `waker.register` of `rearm`. -/
def rearmRegister (waker : Waker) : State ι :=
  let stored := state.setSignal party ((state.signal party).register waker)
  match (state.signal party).registered waker with
  | .armed => stored.goto party .future
  | .wasEmpty => stored.goto party (.rearmLoad waker)

/-- The load of `rearm`. -/
def rearmLoad (waker : Waker) : State ι :=
  let value := (state.signal party).value
  if value.isFinal then pollFinal state party waker value else state.goto party .future

/-! ### Dropping -/

/-- The end of `drop_slow`: a notification that was not used is passed on. -/
def passOn (value : SignalValue) : State ι :=
  if value = .signaled then state.goto party (.notifyLoad true) else state.goto party .idle

/-- `Drop` of a future. -/
def drop : State ι :=
  match (state.signal party).value with
  | .uninit | .returned => state.goto party .idle
  | .initWaiting => state.goto party .cancelLock
  | value => passOn state party value

/-- `queue.lock(false)` of `drop_slow`. -/
def cancelLock : Option (State ι) :=
  match state.queue.lock party false with
  | .spin => none
  | .absent => some (state.goto party .cancelWait)
  | .acquired locked => some ({ state with queue := locked }.goto party .cancelRemove)

/-- `SignalQueue::remove` of the own node. -/
def cancelRemove : State ι :=
  if party ∈ state.queue.entries then
    { state with queue := state.queue.remove party }.goto party (.unlock (.removed true))
  else state.goto party (.unlock (.removed false))

/-- The loop of `drop_slow` that waits for the signal. -/
def cancelWait : Option (State ι) :=
  let value := (state.signal party).value
  if value.isFinal then some (passOn state party value) else none

/-! ### The machine -/

/-- The next step of the call a party is in. -/
def advance : Option (State ι) :=
  match state.pc party with
  | .idle | .future => none
  | .tryLoad attempt => some (tryNext state party attempt state.word)
  | .tryCas attempt cur => some (tryCas width state party attempt cur)
  | .enqueueLock mode => enqueueLock state party mode
  | .enqueueFlag mode => some (enqueueFlag state party mode)
  | .enqueueCas mode cur => some (enqueueCas width state party mode cur)
  | .enqueuePush mode => some (enqueuePush state party mode)
  | .notifyLoad passed => some (notifyLoad state party passed)
  | .notifyCas passed cur => some (notifyCas state party passed cur)
  | .notifySlow passed => some (notifyNext state party passed state.word)
  | .notifyLock passed => notifyLock state party passed
  | .notifyPop passed => some (notifyPop state party passed)
  | .notifySlowCas passed cur => some (notifySlowCas state party passed cur)
  | .broadcastAdd => some (broadcastAdd width state party)
  | .broadcastLock prev => broadcastLock state party prev
  | .broadcastLoad _ => some (state.goto party (.broadcastDrain (generation state.word)))
  | .broadcastDrain liveGen => some (broadcastDrain state party liveGen)
  | .unlock back => some (unlock width state party back)
  | .unlockStore back => some (unlocked { state with queue := state.queue.unlock } party back)
  | .signalTake node rest all => some (signalTake state party node rest all)
  | .signalPublish node rest all => some (signalPublish state party node rest all)
  | .waitSwap => some (waitSwap state party)
  | .waitPark => waitPark state party
  | .rearmRegister waker => some (rearmRegister state party waker)
  | .rearmLoad waker => some (rearmLoad state party waker)
  | .cancelLock => cancelLock state party
  | .cancelRemove => some (cancelRemove state party)
  | .cancelWait => cancelWait state party

/-- A wait captures the generation. -/
def capture : State ι :=
  { state with captured := Function.update state.captured party (generation state.word) }

/-- A call begins, where the party can make it. -/
def begin : Move → Option (State ι)
  | .wait =>
    if state.pc party = .idle then some ((capture state party).goto party (.tryLoad .wait)) else
      none
  | .create =>
    if state.pc party = .idle then
      some (((capture state party).setSignal party .newNone).goto party .future)
    else none
  | .poll waker => if state.pc party = .future then some (poll state party waker) else none
  | .drop => if state.pc party = .future then some (drop state party) else none
  | .notifyOne =>
    if state.pc party = .idle then some (state.goto party (.notifyLoad false)) else none
  | .notifyWaiters => if state.pc party = .idle then some (state.goto party .broadcastAdd) else none
  | .advance => none

end Functions

/-- The step of a label. -/
def step {ι : Type} [DecidableEq ι] (width : PointerWidth) (state : State ι) (label : Label ι) :
    Option (State ι) :=
  match label.2 with
  | .advance => advance width state label.1
  | move => begin state label.1 move

/-- A new notifier and parties that have not called it. -/
def start {ι : Type} : State ι where
  word := 0
  queue := .new
  signal _ := .newNone
  captured _ := 0
  pc _ := .idle
  outcome _ := none
  broadcasts := 0
  issued := 0
  merged := 0
  consumed := 0

/-- **The notifier `NotifyCore::new()`.** -/
def machine (ι : Type) [DecidableEq ι] (width : PointerWidth) : System (State ι) (Label ι) where
  init state := state = start
  step := step width

end Xutex.Notify
