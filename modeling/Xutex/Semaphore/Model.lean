/-
**The semaphore core: permits, the queue, hand-over and cancellation.**

`SemCore` (`semaphore.rs`) keeps its permits in the pool word and its waiters in a wait queue. An
acquisition takes its permits from the pool with one CAS while nobody waits; otherwise it links a
node whose `aux` word is the number of permits still missing. A release adds to the pool and, when
the queue flag is set, drains: under the tag-lock it takes the whole pool and serves the waiters
from the front, the last of them perhaps partially. Closing pops every waiter, and each returns what
it was served. Dropping a pending future unlinks its node and returns what it was served, or waits
for the signal it cannot stop.

Every party is a thread or an acquisition future and runs one call at a time; its request is the
permit it is to get. Permits are values that may be dropped, split, merged and forgotten by anyone,
so the state keeps the list of the live ones. The `kind` of a permit is for the users of the core,
whose guards are permits of different kinds; `downgrade` exchanges a permit for a smaller one.

One step of `step` is one access to shared memory, together with the work on the party's own data
that follows it; work on the queue is done by the holder of the tag-lock, in a step of its own. A
failed `compare_exchange_weak` hands back the current word, so a spurious failure changes nothing
and is left out. `created` and `forgotten` are history.
-/

import Xutex.Concurrency.Runs
import Xutex.Core.Signal
import Xutex.Core.WaitQueue
import Xutex.Semaphore.Pool

namespace Xutex.Semaphore

open Concurrency

/-! ### The state -/

/-- A `SemaphorePermit`, or what a guard built on the core holds. -/
structure Permit (γ : Type) where
  kind : γ
  permits : ℕ
  deriving DecidableEq, Repr

/-- `TryAcquireError`. -/
inductive TryAcquireError
  | closed
  | noPermits
  deriving DecidableEq, Repr

/-- What a call reports: its result, or the panic it ends in. -/
inductive Outcome
  | acquired
  | refused (error : TryAcquireError)
  | forgot (n : ℕ)
  | polledAfterCompletion
  | requestTooLarge
  | releaseTooLarge
  deriving DecidableEq, Repr

/-- Who runs `try_acquire`. -/
inductive Attempt
  | tryAcquire
  | acquireSync
  | acquireSyncSlow
  | pollAcquire (waker : Waker)
  | pollAcquireSlow (waker : Waker)
  deriving DecidableEq, Repr

/-- Where a `release` or a `drain` returns to: the end of the call, the error of a wait that was
closed, or the read guard of a downgraded one. -/
inductive After (γ : Type)
  | done
  | closedWait
  | closedPoll
  | grant (permit : Permit γ)
  deriving DecidableEq, Repr

/-- What `signal_all` writes: `SIGNAL_SIGNALED` after a drain, `SIGNAL_CLOSED` after a close. -/
def signalValue : Bool → SignalValue
  | false => .signaled
  | true => .closed

/-- Where an `unlock` of the queue returns to. -/
inductive Unlock (ι γ : Type)
  | acquired (mode : Mode)
  | closed (mode : Mode)
  | enqueued (mode : Mode) (first : Bool)
  | drained (chain : List ι) (after : After γ)
  | closing (chain : List ι)
  | cancelFound (granted : ℕ) (headChanged : Bool)
  | cancelMissing
  deriving DecidableEq, Repr

/-- Where a party is. `idle` has no future and runs nothing, `future` owns a future that is not
being polled. -/
inductive Pc (ι γ : Type)
  | idle
  | future
  -- `try_acquire`
  | tryLoad (attempt : Attempt)
  | tryCas (attempt : Attempt) (cur : ℕ)
  -- `release` and `drain`
  | releaseAdd (n : ℕ) (after : After γ)
  | drainLock (after : After γ)
  | drainLoad (after : After γ)
  | drainCas (after : After γ) (cur : ℕ)
  | drainServe (after : After γ) (available : ℕ)
  | drainReturn (after : After γ) (available : ℕ) (chain : List ι)
  -- `enqueue_or_acquire`
  | enqueueLock (mode : Mode)
  | enqueueFlag (mode : Mode)
  | enqueueCas (mode : Mode) (cur : ℕ)
  | enqueuePush (mode : Mode)
  -- `LockedQueue::unlock`
  | unlock (back : Unlock ι γ)
  | unlockStore (back : Unlock ι γ)
  -- `signal_all`
  | signalTake (node : ι) (rest : List ι) (closed : Bool) (after : After γ)
  | signalPublish (node : ι) (rest : List ι) (closed : Bool) (after : After γ)
  -- the parked thread in `acquire_sync_slow`
  | syncSpin
  | syncSwap
  | syncPark
  -- `rearm` in `poll_acquire_slow`
  | rearmRegister (waker : Waker)
  | rearmLoad (waker : Waker)
  -- `drop_acquire` and `cancel_acquire`
  | dropLoad
  | cancelLock
  | cancelRemove
  | cancelWait
  -- `close`
  | closeFlag
  | closeLock
  | closePop
  -- `forget_permits`
  | forgetLoad (n : ℕ)
  | forgetCas (n cur : ℕ)
  deriving DecidableEq, Repr

/-- The semaphore and its parties. -/
structure State (ι γ : Type) where
  /-- The atomic `pool` of the core. -/
  pool : ℕ
  queue : WaitQueue ι
  signal : ι → Signal
  /-- The permit the party's latest request is for. -/
  request : ι → Permit γ
  pc : ι → Pc ι γ
  /-- The live permits. -/
  held : List (Permit γ)
  /-- What the party's latest call reported. -/
  outcome : ι → Option Outcome
  /-- History: the permits of the new semaphore and all that were added. -/
  created : ℕ
  /-- History: the permits that were forgotten. -/
  forgotten : ℕ

/-- What a party can be asked to do. -/
inductive Move (γ : Type)
  | tryAcquire (permit : Permit γ)
  | acquire (permit : Permit γ)
  | create (permit : Permit γ)
  | poll (waker : Waker)
  | drop
  | addPermits (n : ℕ)
  | dropPermit (permit : Permit γ)
  | split (permit : Permit γ) (n : ℕ)
  | merge (permit other : Permit γ)
  | forget (permit : Permit γ)
  | downgrade (permit kept : Permit γ)
  | forgetPermits (n : ℕ)
  | close
  | advance
  deriving DecidableEq, Repr

/-- A party and its move. -/
abbrev Label (ι γ : Type) := ι × Move γ

namespace State

variable {ι γ : Type} [DecidableEq ι]

/-- The permits the party asks for. -/
abbrev requested (state : State ι γ) (party : ι) : ℕ := (state.request party).permits

/-- The permits a closed or cancelled waiter was served: `n - aux`. -/
abbrev granted (state : State ι γ) (party : ι) :
    ℕ := state.requested party - (state.signal party).aux

/-- The party goes on at `pc`. -/
@[simp] def goto (state : State ι γ) (party : ι) (pc : Pc ι γ) : State ι γ :=
  { state with pc := Function.update state.pc party pc }

/-- The party's node is replaced. -/
@[simp] def setSignal (state : State ι γ) (party : ι) (node : Signal) : State ι γ :=
  { state with signal := Function.update state.signal party node }

/-- The party's call reports `outcome`. -/
@[simp] def report (state : State ι γ) (party : ι) (outcome : Outcome) : State ι γ :=
  { state with outcome := Function.update state.outcome party (some outcome) }

/-- The call returns the permit it asked for. -/
@[simp] def grant (state : State ι γ) (party : ι) : State ι γ :=
  { state.report party .acquired with held := state.request party :: state.held }

/-- A poll that returns leaves its future, a blocking call leaves nothing. -/
@[simp] def resume : Mode → Pc ι γ
  | .wait => .idle
  | .poll _ => .future

end State

/-! ### Releasing and draining -/

section Functions

variable {ι γ : Type} [DecidableEq ι] [DecidableEq γ] (width : PointerWidth) (state : State ι γ)
  (party : ι)

/-- The return from `release` or `drain`. -/
def finish : After γ → State ι γ
  | .done => state.goto party .idle
  | .closedWait => (state.report party (.refused .closed)).goto party .idle
  | .closedPoll => (state.report party (.refused .closed)).goto party .future
  | .grant permit => { state with held := permit :: state.held }.goto party .idle

/-- The failed assertion of `release`: the caller unwinds. -/
def releasePanic : After γ → State ι γ
  | .closedPoll => (state.report party .releaseTooLarge).goto party .future
  | .done | .closedWait | .grant _ => (state.report party .releaseTooLarge).goto party .idle

/-- `release`. -/
def release (n : ℕ) (after : After γ) : State ι γ :=
  if n = 0 then finish state party after else state.goto party (.releaseAdd n after)

/-- The `fetch_add` of `release`. -/
def releaseAdd (n : ℕ) (after : After γ) : State ι γ :=
  let added := { state with pool := addPermits width state.pool n }
  if releaseFits width state.pool n then
    if hasQueue state.pool then added.goto party (.drainLock after) else finish added party after
  else releasePanic added party after

/-- `queue.lock(false)` of `drain`. -/
def drainLock (after : After γ) : Option (State ι γ) :=
  match state.queue.lock party false with
  | .spin => none
  | .absent => some (finish state party after)
  | .acquired locked => some ({ state with queue := locked }.goto party (.drainLoad after))

/-- What `drain` does next with the word it has read. -/
def drainTake (after : After γ) (cur : ℕ) : Pc ι γ :=
  if permits cur = 0 then .drainServe after 0 else .drainCas after cur

/-- The CAS of `drain` that takes the whole pool. -/
def drainCas (after : After γ) (cur : ℕ) : State ι γ :=
  if state.pool = cur then
    { state with pool := takeAll cur }.goto party (.drainServe after (permits cur))
  else state.goto party (drainTake after state.pool)

/-- What the loop of `drain` leaves: the popped nodes, the linked ones, the nodes and the
permits. -/
structure Served (ι : Type) where
  chain : List ι
  rest : List ι
  signal : ι → Signal
  available : ℕ

/-- The loop of `drain` over the linked nodes. -/
def serve : List ι → (ι → Signal) → ℕ → Served ι
  | [], signal, available => ⟨[], [], signal, available⟩
  | front :: rest, signal, available =>
    let remaining := (signal front).aux
    if available < remaining then
      if 0 < available then
        ⟨[], front :: rest,
          Function.update signal front ((signal front).setAux (remaining - available)), 0⟩
      else ⟨[], front :: rest, signal, available⟩
    else
      let served := serve rest (Function.update signal front ((signal front).setAux 0))
        (available - remaining)
      { served with chain := front :: served.chain }

/-- `drain` under the tag-lock. -/
def drainServe (after : After γ) (available : ℕ) : State ι γ :=
  let served := serve state.queue.entries state.signal available
  { state with queue := state.queue.leave served.rest, signal := served.signal }.goto party
    (if 0 < served.available then .drainReturn after served.available served.chain
      else .unlock (.drained served.chain after))

/-- The `fetch_add` of `drain`: unused permits go back. -/
def drainReturn (after : After γ) (available : ℕ) (chain : List ι) : State ι γ :=
  { state with pool := addPermits width state.pool available }.goto party
    (.unlock (.drained chain after))

/-- The next node of `signal_all`, or the return from `drain` or `close`. -/
def signalNext (closed : Bool) (after : After γ) : List ι → State ι γ
  | [] => finish state party after
  | node :: rest => state.goto party (.signalTake node rest closed after)

/-- `waker.take` of `signal_node`. -/
def signalTake (node : ι) (rest : List ι) (closed : Bool) (after : After γ) : State ι γ :=
  (state.setSignal node (state.signal node).take).goto party (.signalPublish node rest closed after)

/-- The value store of `signal_node`; waking the owner touches nothing shared. -/
def signalPublish (node : ι) (rest : List ι) (closed : Bool) (after : After γ) : State ι γ :=
  signalNext (state.setSignal node ((state.signal node).setValue (signalValue closed))) party closed
    after rest

/-! ### Acquiring -/

/-- The call has its permits: a future is complete. -/
def acquired : Mode → State ι γ
  | .wait => (state.grant party).goto party .idle
  | .poll _ =>
    ((state.setSignal party ((state.signal party).setValue .returned)).grant party).goto party
      .future

/-- The call finds the semaphore closed: a future is complete. -/
def refused : Mode → State ι γ
  | .wait => (state.report party (.refused .closed)).goto party .idle
  | .poll _ =>
    ((state.setSignal party ((state.signal party).setValue .returned)).report party
      (.refused .closed)).goto party .future

/-- The start of `enqueue_or_acquire` with its assertion. -/
def enqueueOrAcquire (mode : Mode) : State ι γ :=
  if state.requested party ≤ maxPermits width then state.goto party (.enqueueLock mode)
  else (state.report party .requestTooLarge).goto party (State.resume mode)

/-- `try_acquire` has failed. -/
def tryFailed : Attempt → TryAcquireError → State ι γ
  | .tryAcquire, error => (state.report party (.refused error)).goto party .idle
  | .acquireSync, _ => state.goto party (.tryLoad .acquireSyncSlow)
  | .pollAcquire waker, _ => state.goto party (.tryLoad (.pollAcquireSlow waker))
  | .acquireSyncSlow, .closed => refused state party .wait
  | .pollAcquireSlow waker, .closed => refused state party (.poll waker)
  -- a thread makes its node, a future arms its own
  | .acquireSyncSlow, .noPermits =>
    enqueueOrAcquire width (state.setSignal party (Signal.newSync.setAux (state.requested party)))
      party .wait
  | .pollAcquireSlow waker, .noPermits =>
    enqueueOrAcquire width (state.setSignal party
      ((((state.signal party).setValue .initWaiting).register waker).setAux
      (state.requested party)))
      party (.poll waker)

/-- `try_acquire` has succeeded. -/
def tryTaken : Attempt → State ι γ
  | .tryAcquire | .acquireSync | .acquireSyncSlow => acquired state party .wait
  | .pollAcquire waker | .pollAcquireSlow waker => acquired state party (.poll waker)

/-- What the loop of `try_acquire` does with a word it has read. -/
def tryNext (attempt : Attempt) (cur : ℕ) : State ι γ :=
  if isClosed cur then tryFailed width state party attempt .closed
  else if hasQueue cur || decide (permits cur < state.requested party) then
    tryFailed width state party attempt .noPermits
  else state.goto party (.tryCas attempt cur)

/-- The CAS of `try_acquire`. -/
def tryCas (attempt : Attempt) (cur : ℕ) : State ι γ :=
  if state.pool = cur then
    tryTaken { state with pool := takePermits cur (state.requested party) } party attempt
  else tryNext width state party attempt state.pool

/-- `queue.lock(true)` of `enqueue_or_acquire`. -/
def enqueueLock (mode : Mode) : Option (State ι γ) :=
  match state.queue.lock party true with
  | .acquired locked => some ({ state with queue := locked }.goto party (.enqueueFlag mode))
  | .spin | .absent => none

/-- What the loop of `enqueue_or_acquire` does with a word it has read. -/
def enqueueNext (mode : Mode) (cur : ℕ) : Pc ι γ :=
  if isClosed cur then .unlock (.closed mode)
  else if state.queue.entries.isEmpty && decide (state.requested party ≤ permits cur) then
    .enqueueCas mode cur
  else .enqueuePush mode

/-- The `fetch_or` of `enqueue_or_acquire`. -/
def enqueueFlag (mode : Mode) : State ι γ :=
  { state with pool := setQueue state.pool }.goto party
    (enqueueNext state party mode (setQueue state.pool))

/-- The CAS of `enqueue_or_acquire`. -/
def enqueueCas (mode : Mode) (cur : ℕ) : State ι γ :=
  if state.pool = cur then
    { state with pool := takePermits cur (state.requested party) }.goto party
      (.unlock (.acquired mode))
  else state.goto party (enqueueNext state party mode state.pool)

/-- `SignalQueue::push` of the own node, which reports whether it is the first. -/
def enqueuePush (mode : Mode) : State ι γ :=
  { state with queue := state.queue.push party }.goto party
    (.unlock (.enqueued mode state.queue.entries.isEmpty))

/-- The queue is unlocked, the caller goes on. -/
def unlocked : Unlock ι γ → State ι γ
  | .acquired mode => acquired state party mode
  | .closed mode => refused state party mode
  | .enqueued .wait true => state.goto party .syncSpin
  | .enqueued .wait false => state.goto party .syncSwap
  | .enqueued (.poll _) _ => state.goto party .future
  | .drained chain after => signalNext state party false after chain
  | .closing chain => signalNext state party true .done chain
  | .cancelFound granted headChanged =>
    if 0 < granted then release state party granted .done
    else if headChanged then state.goto party (.drainLock .done)
    else state.goto party .idle
  | .cancelMissing => state.goto party .cancelWait

/-- `LockedQueue::unlock`: an empty queue clears the flag before it is unpublished. -/
def unlock (back : Unlock ι γ) : State ι γ :=
  if state.queue.entries.isEmpty then
    { state with pool := clearQueue width state.pool }.goto party (.unlockStore back)
  else unlocked { state with queue := state.queue.unlock } party back

/-! ### Waiting -/

/-- `finish_sync`. -/
def finishSync (value : SignalValue) : State ι γ :=
  if value = .signaled then acquired state party .wait
  else release state party (state.granted party) .closedWait

/-- A load of the spin loop of `acquire_sync_slow`. The loop is left after some loads that see no
signal; all but the last of them change nothing. -/
def syncSpin : State ι γ :=
  let value := (state.signal party).value
  if value.isFinal then finishSync state party value else state.goto party .syncSwap

/-- The swap of `acquire_sync_slow`. -/
def syncSwap : State ι γ :=
  let value := (state.signal party).value
  let swapped := state.setSignal party ((state.signal party).setValue .initWaiting)
  if value.isFinal then finishSync swapped party value else swapped.goto party .syncPark

/-- The load after `park`, which may also return without being unparked. -/
def syncPark : Option (State ι γ) :=
  let value := (state.signal party).value
  if value.isFinal then some (finishSync state party value) else none

/-- The end of `poll_acquire_slow` on a final value. -/
def pollFinal (waker : Waker) (value : SignalValue) : State ι γ :=
  if value = .returned then (state.report party .polledAfterCompletion).goto party .future
  else if value = .closed then
    release (state.setSignal party ((state.signal party).setValue .returned)) party
      (state.granted party) .closedPoll
  else acquired state party (.poll waker)

/-- `poll_acquire` with the branches of `poll_acquire_slow`. -/
def poll (waker : Waker) : State ι γ :=
  let value := (state.signal party).value
  if value = .uninit then state.goto party (.tryLoad (.pollAcquire waker))
  else if value = .initWaiting then state.goto party (.rearmRegister waker)
  else pollFinal state party waker value

/-- `waker.register` of `rearm`. -/
def rearmRegister (waker : Waker) : State ι γ :=
  let stored := state.setSignal party ((state.signal party).register waker)
  match (state.signal party).registered waker with
  | .armed => stored.goto party .future
  | .wasEmpty => stored.goto party (.rearmLoad waker)

/-- The load of `rearm`. -/
def rearmLoad (waker : Waker) : State ι γ :=
  let value := (state.signal party).value
  if value.isFinal then pollFinal state party waker value else state.goto party .future

/-! ### Cancelling -/

/-- `Drop` of a future. -/
def drop : State ι γ :=
  match (state.signal party).value with
  | .uninit | .returned => state.goto party .idle
  | .initWaiting | .signaled | .closed | .all | .retry => state.goto party .dropLoad

/-- `drop_acquire` loads the value again. -/
def dropLoad : State ι γ :=
  match (state.signal party).value with
  | .initWaiting => state.goto party .cancelLock
  | .signaled => release state party (state.requested party) .done
  | .closed => release state party (state.granted party) .done
  | .uninit | .all | .retry | .returned => state.goto party .idle

/-- `queue.lock(false)` of `cancel_acquire`. -/
def cancelLock : Option (State ι γ) :=
  match state.queue.lock party false with
  | .spin => none
  | .absent => some (state.goto party .cancelWait)
  | .acquired locked => some ({ state with queue := locked }.goto party .cancelRemove)

/-- `SignalQueue::remove` of the own node, with what was served and whether the head changed. -/
def cancelRemove : State ι γ :=
  let rest := state.queue.entries.erase party
  if party ∈ state.queue.entries then
    { state with queue := state.queue.remove party }.goto party
      (.unlock (.cancelFound (state.granted party)
        (decide (state.queue.entries.head? = some party) && !rest.isEmpty)))
  else state.goto party (.unlock .cancelMissing)

/-- The loop at the end of `cancel_acquire`. -/
def cancelWait : Option (State ι γ) :=
  let value := (state.signal party).value
  if value.isFinal then
    some (release state party
      (if value = .closed then state.granted party else state.requested party) .done)
  else none

/-! ### Closing and forgetting -/

/-- The `fetch_or` of `close`. -/
def closeFlag : State ι γ :=
  let closed := { state with pool := setClosed state.pool }
  if isClosed state.pool then closed.goto party .idle
  else if hasQueue state.pool then closed.goto party .closeLock
  else closed.goto party .idle

/-- `queue.lock(false)` of `close`. -/
def closeLock : Option (State ι γ) :=
  match state.queue.lock party false with
  | .spin => none
  | .absent => some (state.goto party .idle)
  | .acquired locked => some ({ state with queue := locked }.goto party .closePop)

/-- `close` under the tag-lock: every node is popped. -/
def closePop : State ι γ :=
  { state with queue := state.queue.leave [] }.goto party (.unlock (.closing state.queue.entries))

/-- What the loop of `forget_permits` does with a word it has read. -/
def forgetNext (n cur : ℕ) : State ι γ :=
  if min (permits cur) n = 0 then (state.report party (.forgot 0)).goto party .idle
  else state.goto party (.forgetCas n cur)

/-- The CAS of `forget_permits`. -/
def forgetCas (n cur : ℕ) : State ι γ :=
  if state.pool = cur then
    ({ state with
      pool := takePermits cur (min (permits cur) n)
      forgotten := state.forgotten + min (permits cur) n }.report party
        (.forgot (min (permits cur) n))).goto party .idle
  else forgetNext state party n state.pool

/-! ### The machine -/

/-- The next step of the call a party is in. -/
def advance : Option (State ι γ) :=
  match state.pc party with
  | .idle | .future => none
  | .tryLoad attempt => some (tryNext width state party attempt state.pool)
  | .tryCas attempt cur => some (tryCas width state party attempt cur)
  | .releaseAdd n after => some (releaseAdd width state party n after)
  | .drainLock after => drainLock state party after
  | .drainLoad after => some (state.goto party (drainTake after state.pool))
  | .drainCas after cur => some (drainCas state party after cur)
  | .drainServe after available => some (drainServe state party after available)
  | .drainReturn after available chain => some (drainReturn width state party after available chain)
  | .enqueueLock mode => enqueueLock state party mode
  | .enqueueFlag mode => some (enqueueFlag state party mode)
  | .enqueueCas mode cur => some (enqueueCas state party mode cur)
  | .enqueuePush mode => some (enqueuePush state party mode)
  | .unlock back => some (unlock width state party back)
  | .unlockStore back => some (unlocked { state with queue := state.queue.unlock } party back)
  | .signalTake node rest closed after => some (signalTake state party node rest closed after)
  | .signalPublish node rest closed after => some (signalPublish state party node rest closed after)
  | .syncSpin => some (syncSpin state party)
  | .syncSwap => some (syncSwap state party)
  | .syncPark => syncPark state party
  | .rearmRegister waker => some (rearmRegister state party waker)
  | .rearmLoad waker => some (rearmLoad state party waker)
  | .dropLoad => some (dropLoad state party)
  | .cancelLock => cancelLock state party
  | .cancelRemove => some (cancelRemove state party)
  | .cancelWait => cancelWait state party
  | .closeFlag => some (closeFlag state party)
  | .closeLock => closeLock state party
  | .closePop => some (closePop state party)
  | .forgetLoad n => some (forgetNext state party n state.pool)
  | .forgetCas n cur => some (forgetCas state party n cur)

/-- An acquisition starts: its argument is a machine word. -/
def beginRequest (permit : Permit γ) (pc : Pc ι γ) : Option (State ι γ) :=
  if state.pc party = .idle ∧ permit.permits < 2 ^ width.bits then
    some ({ state with request := Function.update state.request party permit }.goto party pc)
  else none

/-- A call begins, where the party can make it. -/
def begin : Move γ → Option (State ι γ)
  | .tryAcquire permit => beginRequest width state party permit (.tryLoad .tryAcquire)
  | .acquire permit => beginRequest width state party permit (.tryLoad .acquireSync)
  | .create permit => beginRequest width (state.setSignal party .newNone) party permit .future
  | .poll waker => if state.pc party = .future then some (poll state party waker) else none
  | .drop => if state.pc party = .future then some (drop state party) else none
  | .addPermits n =>
    if state.pc party = .idle ∧ n < 2 ^ width.bits then
      some (release { state with created := state.created + n } party n .done)
    else none
  | .dropPermit permit =>
    if state.pc party = .idle ∧ permit ∈ state.held then
      some (release { state with held := state.held.erase permit } party permit.permits .done)
    else none
  | .split permit n =>
    if state.pc party = .idle ∧ permit ∈ state.held then
      if n ≤ permit.permits then
        some { state with held := ⟨permit.kind, n⟩ :: ⟨permit.kind, permit.permits - n⟩ ::
          state.held.erase permit }
      else some state
    else none
  | .merge permit other =>
    if state.pc party = .idle ∧ permit ∈ state.held ∧ other ∈ state.held.erase permit then
      some { state with held := ⟨permit.kind, (permit.permits + other.permits) % 2 ^ width.bits⟩ ::
        (state.held.erase permit).erase other }
    else none
  | .forget permit =>
    if state.pc party = .idle ∧ permit ∈ state.held then
      some { state with
        held := state.held.erase permit, forgotten := state.forgotten + permit.permits }
    else none
  | .downgrade permit kept =>
    if state.pc party = .idle ∧ permit ∈ state.held ∧ kept.permits ≤ permit.permits then
      some (release { state with held := state.held.erase permit } party
        (permit.permits - kept.permits) (.grant kept))
    else none
  | .forgetPermits n =>
    if state.pc party = .idle ∧ n < 2 ^ width.bits then some (state.goto party (.forgetLoad n))
    else none
  | .close => if state.pc party = .idle then some (state.goto party .closeFlag) else none
  | .advance => none

end Functions

/-- The step of a label. -/
def step {ι γ : Type} [DecidableEq ι] [DecidableEq γ] (width : PointerWidth) (state : State ι γ)
    (label : Label ι γ) : Option (State ι γ) :=
  match label.2 with
  | .advance => advance width state label.1
  | move => begin width state label.1 move

/-- A new semaphore of `n` permits and parties that have not called it and ask for nothing. -/
def start {ι γ : Type} (n : ℕ) (kind : γ) : State ι γ where
  pool := newPool n
  queue := .new
  signal _ := .newNone
  request _ := ⟨kind, 0⟩
  pc _ := .idle
  held := []
  outcome _ := none
  created := n
  forgotten := 0

/-- **The semaphore `SemCore::new(n)`**; `new` asserts that `n` is at most `MAX_PERMITS`. -/
def machine (ι γ : Type) [DecidableEq ι] [DecidableEq γ] (width : PointerWidth) (n : ℕ) :
    System (State ι γ) (Label ι γ) where
  init state := n ≤ maxPermits width ∧ ∃ kind, state = start n kind
  step := step width

end Xutex.Semaphore
