/-
**The barrier: arrivals, the leader's release, parking and withdrawal.**

`BarrierCore` (`barrier.rs`) keeps `generation << HALF | arrived` in one word. An arrival increments
the low half; the completing one clears it, advances the generation and becomes the leader, whose
duty is to pop every waiter of its generation and signal it. The other arrivals park, unless a
read-modify-write under the queue's tag-lock shows that their round is over. Dropping a pending
future takes its arrival back while the round is still forming.

Every party is a blocking `wait` or a wait future; a party runs one call at a time. One step of
`step` is one access to shared memory, together with the work on the party's own data that follows
it. A failed `compare_exchange_weak` hands back the current word, so a spurious failure changes
nothing and is left out.

`rounds` and `round` are history: how many rounds have completed, and in which round a party
arrived.
-/

import Xutex.Concurrency.Runs
import Xutex.Core.Signal
import Xutex.Core.WaitQueue

namespace Xutex.Barrier

open Concurrency

/-! ### The word -/

/-- `ARRIVED_MASK`. -/
def arrivedMask (half : ℕ) : ℕ := 2 ^ half - 1

/-- `generation(state)`. -/
def generation (half word : ℕ) : ℕ := word >>> half

/-- `state & ARRIVED_MASK`. -/
def arrived (half word : ℕ) : ℕ := word &&& arrivedMask half

/-- The size `BarrierCore::new` stores: a barrier of size zero behaves like one of size one. -/
def coreSize (n : ℕ) : ℕ := if n = 0 then 1 else n

/-- The word an arrival writes: the next generation with nobody arrived, or one more arrival. -/
def arriveNext (half n cur : ℕ) : ℕ :=
  if n ≤ arrived half cur + 1 then ((generation half cur + 1) <<< half) % 2 ^ (2 * half) else cur +
    1

/-- `cur - 1` on a word of `2 * half` bits. -/
def withdrawNext (half cur : ℕ) : ℕ := (cur + (2 ^ (2 * half) - 1)) % 2 ^ (2 * half)

/-! ### The state -/

/-- What a call reports: the two results of a wait, or the panic of a poll after completion. -/
inductive Outcome
  | leader
  | follower
  | polledAfterCompletion
  deriving DecidableEq, Repr

/-- Where a party is. `idle` has no future and runs nothing, `future` owns a future that is not
being polled. -/
inductive Pc (ι : Type)
  | idle
  | future
  -- `arrive`
  | arriveLoad (mode : Mode)
  | arriveCas (mode : Mode) (cur : ℕ)
  -- `release_waiters`
  | releaseLock (mode : Mode) (generation : ℕ)
  | releaseDrain (mode : Mode) (generation : ℕ)
  | releaseUnlock (mode : Mode) (chain : List ι)
  | releaseTake (mode : Mode) (node : ι) (rest : List ι)
  | releasePublish (mode : Mode) (node : ι) (rest : List ι)
  -- `enqueue_or_complete`
  | enqueueLock (mode : Mode) (generation : ℕ)
  | enqueueFresh (mode : Mode) (generation : ℕ)
  | enqueuePush (mode : Mode) (generation : ℕ)
  | enqueueUnlock (mode : Mode) (enqueued : Bool)
  -- the parked thread in `wait`
  | waitSwap
  | waitPark
  -- `rearm` in `poll`
  | rearmRegister (waker : Waker)
  | rearmLoad (waker : Waker)
  -- `drop_slow`
  | withdrawLoad
  | withdrawCas (cur : ℕ)
  | removeLock
  | removeNode
  | removeUnlock (found : Bool)
  | dropSpin
  deriving DecidableEq, Repr

/-- The barrier and its parties. -/
structure State (ι : Type) where
  /-- The atomic `state` of the core. -/
  word : ℕ
  queue : WaitQueue ι
  signal : ι → Signal
  /-- The `generation` field of a party's future. -/
  captured : ι → ℕ
  pc : ι → Pc ι
  /-- What the party's latest call reported. -/
  outcome : ι → Option Outcome
  /-- History: the rounds completed so far. -/
  rounds : ℕ
  /-- History: the round of the party's latest arrival. -/
  round : ι → ℕ

/-- What a party can be asked to do. -/
inductive Move
  | wait
  | create
  | poll (waker : Waker)
  | drop
  | advance
  deriving DecidableEq, Repr

/-- A party and its move. -/
abbrev Label (ι : Type) := ι × Move

namespace State

variable {ι : Type} [DecidableEq ι]

/-- The party goes on at `pc`. -/
@[simp] def goto (state : State ι) (party : ι) (pc : Pc ι) : State ι :=
  { state with pc := Function.update state.pc party pc }

/-- The party's node is replaced. -/
@[simp] def setSignal (state : State ι) (party : ι) (node : Signal) : State ι :=
  { state with signal := Function.update state.signal party node }

/-- The party's call reports `outcome`. -/
@[simp] def report (state : State ι) (party : ι) (outcome : Outcome) : State ι :=
  { state with outcome := Function.update state.outcome party (some outcome) }

/-- A poll that returns leaves its future, a blocking call leaves nothing. -/
@[simp] def resume : Mode → Pc ι
  | .wait => .idle
  | .poll _ => .future

end State

/-! ### The functions of the core -/

section Functions

variable {ι : Type} [DecidableEq ι] (half n : ℕ) (state : State ι) (party : ι)

/-- The first load of `arrive`. -/
def arriveLoad (mode : Mode) : State ι := state.goto party (.arriveCas mode state.word)

/-- What follows `ArriveOutcome::Leader`: a future is complete before its leader releases the
others. -/
def arriveLeader (mode : Mode) (generation : ℕ) : State ι :=
  let led := match mode with
    | .wait => state
    | .poll _ => state.setSignal party ((state.signal party).setValue .returned)
  led.goto party (.releaseLock mode generation)

/-- What follows `ArriveOutcome::Wait`: a thread makes its node, a future arms its own. -/
def arriveWait (mode : Mode) (generation : ℕ) : State ι :=
  let parked := match mode with
    | .wait => state.setSignal party .newSync
    | .poll waker =>
      { state.setSignal party (((state.signal party).setValue .initWaiting).register waker) with
        captured := Function.update state.captured party generation }
  parked.goto party (.enqueueLock mode generation)

/-- The `compare_exchange_weak` of `arrive`. -/
def arriveCas (mode : Mode) (cur : ℕ) : State ι :=
  if state.word = cur then
    let next := arriveNext half n cur
    let moved :=
      { state with word := next, round := Function.update state.round party state.rounds }
    if arrived half next = 0 then
      arriveLeader { moved with rounds := state.rounds + 1 } party mode (generation half cur)
    else arriveWait moved party mode (generation half cur)
  else state.goto party (.arriveCas mode state.word)

/-- `release_waiters` has returned. -/
def releaseReturn (mode : Mode) : State ι :=
  (state.report party .leader).goto party (State.resume mode)

/-- `queue.lock(false)` of `release_waiters`. -/
def releaseLock (mode : Mode) (generation : ℕ) : Option (State ι) :=
  match state.queue.lock party false with
  | .spin => none
  | .absent => some (releaseReturn state party mode)
  | .acquired locked =>
    some ({ state with queue := locked }.goto party (.releaseDrain mode generation))

/-- The loop of `release_waiters` under the tag-lock: pop while the front carries `generation`. -/
def releaseDrain (mode : Mode) (generation : ℕ) : State ι :=
  let mine := fun node => decide ((state.signal node).aux = generation)
  { state with queue := state.queue.leave (state.queue.entries.dropWhile mine) }.goto party
    (.releaseUnlock mode (state.queue.entries.takeWhile mine))

/-- The next node of `signal_all`, or the return from `release_waiters`. -/
def releaseNext (mode : Mode) : List ι → State ι
  | [] => releaseReturn state party mode
  | node :: rest => state.goto party (.releaseTake mode node rest)

/-- `waker.take` of `signal_node`. -/
def releaseTake (mode : Mode) (node : ι) (rest : List ι) : State ι :=
  (state.setSignal node (state.signal node).take).goto party (.releasePublish mode node rest)

/-- The value store of `signal_node`; waking the owner touches nothing shared. -/
def releasePublish (mode : Mode) (node : ι) (rest : List ι) : State ι :=
  releaseNext (state.setSignal node ((state.signal node).setValue .all)) party mode rest

/-- `queue.lock(true)` of `enqueue_or_complete`. -/
def enqueueLock (mode : Mode) (generation : ℕ) : Option (State ι) :=
  match state.queue.lock party true with
  | .acquired locked =>
    some ({ state with queue := locked }.goto party (.enqueueFresh mode generation))
  | .spin | .absent => none

/-- `state.fetch_add(0)` of `enqueue_or_complete`. -/
def enqueueFresh (mode : Mode) (expected : ℕ) : State ι :=
  if generation half state.word ≠ expected then state.goto party (.enqueueUnlock mode false)
  else state.goto party (.enqueuePush mode expected)

/-- The node takes its generation and is linked. -/
def enqueuePush (mode : Mode) (generation : ℕ) : State ι :=
  { state.setSignal party ((state.signal party).setAux generation) with
    queue := state.queue.push party }.goto party (.enqueueUnlock mode true)

/-- The unlock of `enqueue_or_complete`, and what its caller does with the outcome. -/
def enqueueUnlock (mode : Mode) (enqueued : Bool) : State ι :=
  let unlocked := { state with queue := state.queue.unlock }
  match mode, enqueued with
  | .wait, true => unlocked.goto party .waitSwap
  | .wait, false => (unlocked.report party .follower).goto party .idle
  | .poll _, true => unlocked.goto party .future
  | .poll _, false =>
    ((unlocked.setSignal party ((state.signal party).setValue .returned)).report party
      .follower).goto party .future

/-- The swap of the blocking `wait`. -/
def waitSwap : State ι :=
  let swapped := state.setSignal party ((state.signal party).setValue .initWaiting)
  if (state.signal party).value.reachesAll then (swapped.report party .follower).goto party .idle
  else swapped.goto party .waitPark

/-- The load after `park`, which may also return without being unparked. -/
def waitPark : Option (State ι) :=
  if (state.signal party).value.reachesAll then some
    ((state.report party .follower).goto party .idle)
  else none

/-- The end of `poll` on a value other than `SIGNAL_INIT_WAITING`. -/
def pollValue (waker : Waker) (value : SignalValue) : State ι :=
  if value.reachesAll then
    if value = .returned then (state.report party .polledAfterCompletion).goto party .future
    else ((state.setSignal party ((state.signal party).setValue .returned)).report party
      .follower).goto party .future
  else state.goto party (.arriveLoad (.poll waker))

/-- The start of `poll`. -/
def poll (waker : Waker) : State ι :=
  if (state.signal party).value = .initWaiting then state.goto party (.rearmRegister waker)
  else pollValue state party waker (state.signal party).value

/-- `waker.register` of `rearm`. -/
def rearmRegister (waker : Waker) : State ι :=
  let stored := state.setSignal party ((state.signal party).register waker)
  match (state.signal party).registered waker with
  | .armed => stored.goto party .future
  | .wasEmpty => stored.goto party (.rearmLoad waker)

/-- The second load of `rearm`; a wake of the own task touches nothing shared. -/
def rearmLoad (waker : Waker) : State ι :=
  let value := (state.signal party).value
  if value.isFinal then pollValue state party waker value else state.goto party .future

/-- `Drop` of the future. -/
def drop : State ι :=
  if (state.signal party).value = .initWaiting then state.goto party .withdrawLoad
  else state.goto party .idle

/-- The loop condition of `drop_slow` on a freshly read word. -/
def withdrawTry (cur : ℕ) : State ι :=
  if generation half cur = state.captured party then state.goto party (.withdrawCas cur)
  else state.goto party .dropSpin

/-- The `compare_exchange_weak` of `drop_slow`. -/
def withdrawCas (cur : ℕ) : State ι :=
  if state.word = cur then { state with word := withdrawNext half cur }.goto party .removeLock
  else withdrawTry half state party state.word

/-- `queue.lock(false)` of `drop_slow`. -/
def removeLock : Option (State ι) :=
  match state.queue.lock party false with
  | .spin => none
  | .absent => some (state.goto party .dropSpin)
  | .acquired locked => some ({ state with queue := locked }.goto party .removeNode)

/-- `SignalQueue::remove` of the own node. -/
def removeNode : State ι :=
  { state with queue := state.queue.remove party }.goto party
    (.removeUnlock (decide (party ∈ state.queue.entries)))

/-- The unlock of `drop_slow`. -/
def removeUnlock (found : Bool) : State ι :=
  { state with queue := state.queue.unlock }.goto party (if found then .idle else .dropSpin)

/-- The last loop of `drop_slow`. -/
def dropSpin : Option (State ι) :=
  if (state.signal party).value.reachesAll then some (state.goto party .idle) else none

/-- The next step of the call a party is in. -/
def advance : Option (State ι) :=
  match state.pc party with
  | .idle | .future => none
  | .arriveLoad mode => some (arriveLoad state party mode)
  | .arriveCas mode cur => some (arriveCas half n state party mode cur)
  | .releaseLock mode generation => releaseLock state party mode generation
  | .releaseDrain mode generation => some (releaseDrain state party mode generation)
  | .releaseUnlock mode chain =>
    some (releaseNext { state with queue := state.queue.unlock } party mode chain)
  | .releaseTake mode node rest => some (releaseTake state party mode node rest)
  | .releasePublish mode node rest => some (releasePublish state party mode node rest)
  | .enqueueLock mode generation => enqueueLock state party mode generation
  | .enqueueFresh mode expected => some (enqueueFresh half state party mode expected)
  | .enqueuePush mode generation => some (enqueuePush state party mode generation)
  | .enqueueUnlock mode enqueued => some (enqueueUnlock state party mode enqueued)
  | .waitSwap => some (waitSwap state party)
  | .waitPark => waitPark state party
  | .rearmRegister waker => some (rearmRegister state party waker)
  | .rearmLoad waker => some (rearmLoad state party waker)
  | .withdrawLoad => some (withdrawTry half state party state.word)
  | .withdrawCas cur => some (withdrawCas half state party cur)
  | .removeLock => removeLock state party
  | .removeNode => some (removeNode state party)
  | .removeUnlock found => some (removeUnlock state party found)
  | .dropSpin => dropSpin state party

/-- A call begins, where the party can make it. -/
def begin : Move → Option (State ι)
  | .wait => if state.pc party = .idle then some (state.goto party (.arriveLoad .wait)) else none
  | .create =>
    if state.pc party = .idle then
      some ({ state.setSignal party .newNone with
        captured := Function.update state.captured party 0 }.goto party .future)
    else none
  | .poll waker => if state.pc party = .future then some (poll state party waker) else none
  | .drop => if state.pc party = .future then some (drop state party) else none
  | .advance => none

end Functions

/-! ### What an arrival leaves alone

Both ways on from `arrive` write the party's own node and program counter, and nothing else of the
state but the `generation` field of a waiting future. -/

section Arrived

variable {ι : Type} [DecidableEq ι] (state : State ι) (party : ι) (mode : Mode) (expected : ℕ)

@[simp] theorem arriveLeader_word : (arriveLeader state party mode expected).word = state.word := by
  cases mode <;> rfl
@[simp] theorem arriveLeader_queue : (arriveLeader state party mode expected).queue =
    state.queue := by
  cases mode <;> rfl
@[simp] theorem arriveLeader_captured :
    (arriveLeader state party mode expected).captured = state.captured := by cases mode <;> rfl
@[simp] theorem arriveLeader_rounds :
    (arriveLeader state party mode expected).rounds = state.rounds := by cases mode <;> rfl
@[simp] theorem arriveLeader_round : (arriveLeader state party mode expected).round =
    state.round := by
  cases mode <;> rfl
@[simp] theorem arriveLeader_pc : (arriveLeader state party mode expected).pc =
    Function.update state.pc party (.releaseLock mode expected) := by cases mode <;> rfl
theorem arriveLeader_signal {other : ι} (different : other ≠ party) :
    (arriveLeader state party mode expected).signal other = state.signal other := by
  cases mode <;> simp [arriveLeader, different]

@[simp] theorem arriveWait_word : (arriveWait state party mode expected).word = state.word := by
  cases mode <;> rfl
@[simp] theorem arriveWait_queue : (arriveWait state party mode expected).queue = state.queue := by
  cases mode <;> rfl
theorem arriveWait_captured {other : ι} (different : other ≠ party) :
    (arriveWait state party mode expected).captured other = state.captured other := by
  cases mode <;> simp [arriveWait, different]
theorem arriveWait_captured_poll {waker : Waker} :
    (arriveWait state party (.poll waker) expected).captured party = expected := by
  simp [arriveWait]
@[simp] theorem arriveWait_rounds : (arriveWait state party mode expected).rounds =
    state.rounds := by
  cases mode <;> rfl
@[simp] theorem arriveWait_round : (arriveWait state party mode expected).round = state.round := by
  cases mode <;> rfl
@[simp] theorem arriveWait_pc : (arriveWait state party mode expected).pc =
    Function.update state.pc party (.enqueueLock mode expected) := by cases mode <;> rfl
theorem arriveWait_signal {other : ι} (different : other ≠ party) :
    (arriveWait state party mode expected).signal other = state.signal other := by
  cases mode <;> simp [arriveWait, different]

end Arrived

/-- The step of a label. -/
def step {ι : Type} [DecidableEq ι] (half n : ℕ) (state : State ι) (label : Label ι) :
    Option (State ι) :=
  match label.2 with
  | .advance => advance half n state label.1
  | move => begin state label.1 move

/-- A new barrier and parties that have not called it. -/
def start (ι : Type) : State ι where
  word := 0
  queue := .new
  signal _ := .newNone
  captured _ := 0
  pc _ := .idle
  outcome _ := none
  rounds := 0
  round _ := 0

/-- **The barrier `BarrierCore::new(n)`** on words of `2 * half` bits; `new` asserts that the size
fits into the low half. -/
def machine (ι : Type) [DecidableEq ι] (half n : ℕ) : System (State ι) (Label ι) where
  init state := coreSize n ≤ arrivedMask half ∧ state = start ι
  step := step half (coreSize n)

end Xutex.Barrier
