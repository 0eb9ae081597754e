/-
**The semaphore keeps the discipline of its wait queue.**

`discipline` declares the program points of the semaphore to the general rules of `Waiters`, and
`step_moves` shows that every step is one of the moves they allow: all but one. A poll marks its
node as waiting before `enqueue_or_acquire` checks the request, so the panic on a request above
`MAX_PERMITS` leaves a marked node that is linked nowhere. `bounded` rules that step out, by what
the poll finds in the pool word; in the runs whose steps are `bounded` each node that is given away
and not signalled is in the queue or in exactly one chain, and the tag-lock has one holder
(`waiting_of_reachable`).
-/

import Xutex.Core.Waiters
import Xutex.Semaphore.Model

set_option linter.unusedSectionVars false

namespace Xutex.Semaphore

open Concurrency Discipline

variable {ι γ : Type} [DecidableEq ι] [DecidableEq γ]

/-! ### The declared program points -/

/-- The popped nodes that an unlock leaves to be signalled. -/
def Unlock.chain : Unlock ι γ → List ι
  | .drained chain _ | .closing chain => chain
  | .acquired _ | .closed _ | .enqueued _ _ | .cancelFound _ _ | .cancelMissing => []

/-- The node of the party that unlocks is given away. -/
def Unlock.waits : Unlock ι γ → SignalValue → Bool
  | .enqueued mode _, value => modeWaits mode value
  | .cancelMissing, _ => true
  | .acquired _, _ | .closed _, _ | .drained _ _, _ | .closing _, _ | .cancelFound _ _, _ => false

/-- A closed future is complete before it returns what it was served. -/
def After.own : After γ → Option SignalValue
  | .closedPoll => some .returned
  | .done | .closedWait | .grant _ => none

def Unlock.own : Unlock ι γ → Option SignalValue
  | .drained _ after => after.own
  | .acquired _ | .closed _ | .enqueued _ _ | .closing _ | .cancelFound _ _ | .cancelMissing => none

def chainOf : Pc ι γ → List ι
  | .drainReturn _ _ chain => chain
  | .unlock back | .unlockStore back => back.chain
  | .signalTake node rest _ _ | .signalPublish node rest _ _ => node :: rest
  | _ => []

def waitsAt : Pc ι γ → SignalValue → Bool
  | .future, value | .rearmRegister _, value | .rearmLoad _, value | .dropLoad, value =>
    valueWaits value
  | .unlock back, value | .unlockStore back, value => back.waits value
  | .syncSpin, _ | .syncSwap, _ | .syncPark, _ => true
  | .cancelLock, _ | .cancelRemove, _ | .cancelWait, _ => true
  | _, _ => false

def lockedAt : Pc ι γ → Bool
  | .drainLoad _ | .drainCas _ _ | .drainServe _ _ | .drainReturn _ _ _ => true
  | .enqueueFlag _ | .enqueueCas _ _ | .enqueuePush _ => true
  | .unlock _ | .unlockStore _ | .cancelRemove | .closePop => true
  | _ => false

def ownValue : Pc ι γ → Option SignalValue
  | .enqueueLock mode | .enqueueFlag mode | .enqueueCas mode _ | .enqueuePush mode =>
    some (armedValue mode)
  | .releaseAdd _ after | .drainLock after | .drainLoad after | .drainCas after _ => after.own
  | .drainServe after _ | .drainReturn after _ _ => after.own
  | .unlock back | .unlockStore back => back.own
  | .signalTake _ _ _ after | .signalPublish _ _ _ after => after.own
  | _ => none

/-- **The semaphore's program points**, as far as waiting is concerned. A waiter is signalled with
`SIGNAL_SIGNALED` or `SIGNAL_CLOSED`. -/
def discipline : Discipline ι (Pc ι γ) where
  chain := chainOf
  waits := waitsAt
  locked := lockedAt
  own := ownValue
  signals signal := decide (signal = .signaled ∨ signal = .closed)
  signalsFinal {signal} kind := by
    rcases of_decide_eq_true kind with rfl | rfl <;> rfl
  signalledWaits {pc value signal} waits kind := by
    have given : valueWaits signal = true := by rcases of_decide_eq_true kind with rfl | rfl <;> rfl
    have mode (mode : Mode) : modeWaits mode signal = true := by
      cases mode <;> simp [modeWaits, given]
    cases pc <;> simp_all [waitsAt]
    all_goals rename Unlock ι γ => back
    all_goals cases back <;> simp_all [Unlock.waits]
  signalerFree {pc} value busy := by
    cases pc <;> simp_all [chainOf, waitsAt]
    all_goals rename Unlock ι γ => back
    all_goals cases back <;> simp_all [Unlock.waits, Unlock.chain]
  ownFree {pc value} other own := by
    cases pc <;> simp_all [ownValue, waitsAt]
    all_goals rename Unlock ι γ => back
    all_goals cases back <;> simp_all [Unlock.waits, Unlock.own]

/-- The part of the state that waiting is about. -/
def State.waiters (state : State ι γ) : Waiters ι (Pc ι γ) := ⟨state.queue, state.signal, state.pc⟩

/-- The invariant of waiting, for the semaphore. -/
abbrev Waiting (state : State ι γ) : Prop := discipline.Kept state.waiters

/-- What the code relies on about the nodes it handles: its own, where it has written it, and those
it has popped, which are others'. -/
structure Owned (state : State ι γ) : Prop where
  owned : ∀ party value, ownValue (state.pc party) = some value → (state.signal party).value = value
  apart : ∀ party, party ∉ chainOf (state.pc party)

theorem owned_of_waiting {state : State ι γ} (waiting : Waiting state) : Owned state where
  owned := waiting.owned
  apart party member := by
    have waits : waitsAt (state.pc party) (state.signal party).value = true :=
      (waiting.popped member).1
    have free : waitsAt (state.pc party) (state.signal party).value = false :=
      discipline.signalerFree _ (List.ne_nil_of_mem member)
    rw [free] at waits
    cases waits

/-! ### Where the shared endings lead -/

/-- Where a `release` or a `drain` returns to. -/
def finishPc : After γ → Pc ι γ
  | .closedPoll => .future
  | .done | .closedWait | .grant _ => .idle

/-- Where `release` goes on. -/
def releasePc (n : ℕ) (after : After γ) : Pc ι γ :=
  if n = 0 then finishPc after else .releaseAdd n after

/-- Where `signal_all` goes on. -/
def signalPc (closed : Bool) (after : After γ) : List ι → Pc ι γ
  | [] => finishPc after
  | node :: rest => .signalTake node rest closed after

section Endings

variable {state next : State ι γ} {party : ι} {pc pc' : Pc ι γ} {mode : Mode} {after : After γ}
  {value : SignalValue}

theorem finish_waiters : (finish state party after).waiters =
    ⟨state.queue, state.signal, Function.update state.pc party (finishPc after)⟩ := by
  cases after <;> rfl

theorem releasePanic_waiters : (releasePanic state party after).waiters =
    ⟨state.queue, state.signal, Function.update state.pc party (finishPc after)⟩ := by
  cases after <;> rfl

theorem release_waiters {n : ℕ} : (release state party n after).waiters =
    ⟨state.queue, state.signal, Function.update state.pc party (releasePc n after)⟩ := by
  unfold release releasePc
  split
  · exact finish_waiters
  · rfl

theorem signalNext_waiters {closed : Bool} {chain : List ι} :
    (signalNext state party closed after chain).waiters =
      ⟨state.queue, state.signal, Function.update state.pc party
        (signalPc closed after chain)⟩ := by
  cases chain with
  | nil => exact finish_waiters
  | cons node rest => rfl

/-- A point on the way back from a `release` or a `drain`: `chain` is left to be signalled, and the
node of the party is not given away. -/
structure Returns (after : After γ) (value : SignalValue) (chain : List ι) (pc : Pc ι γ) :
    Prop where
  chain : chainOf pc = chain
  free : lockedAt pc = false
  waits : waitsAt pc value = false
  own : ownValue pc = none ∨ ownValue pc = after.own

/-- The value of the node is the one the way back relies on. -/
def Complete (after : After γ) (value : SignalValue) : Prop := ∀ own, after.own = some own →
    value = own

theorem finishPc_returns (complete : Complete after value) :
    Returns after value [] (finishPc after : Pc ι γ) := by
  cases after with
  | closedPoll => exact ⟨rfl, rfl, by rw [complete .returned rfl]; rfl, .inl rfl⟩
  | done | closedWait | grant permit => exact ⟨rfl, rfl, rfl, .inl rfl⟩

theorem releasePc_returns {n : ℕ} (complete : Complete after value) :
    Returns after value [] (releasePc n after : Pc ι γ) := by
  unfold releasePc
  split
  · exact finishPc_returns complete
  · exact ⟨rfl, rfl, rfl, .inr rfl⟩

theorem signalPc_returns {closed : Bool} {chain : List ι} (complete : Complete after value) :
    Returns after value chain (signalPc closed after chain : Pc ι γ) := by
  cases chain with
  | nil => exact finishPc_returns complete
  | cons node rest => exact ⟨rfl, rfl, rfl, .inr rfl⟩

/-- What the discipline keeps about the node of a party on its way back. -/
theorem complete_of_own (owned : Owned state) (source : state.pc party = pc)
    (own : ownValue pc = after.own) : Complete after (state.signal party).value :=
  fun value relies => owned.owned party value ((congrArg ownValue source).trans (own.trans relies))

theorem complete_of_none (own : after.own = none) : Complete after value := fun _ relies => by
  rw [own] at relies
  cases relies

end Endings

/-! ### What a drain pops -/

section Serve

/-- The popped nodes were in front of the ones that stay. -/
theorem serve_entries (entries : List ι) (signal : ι → Signal) (available : ℕ) :
    entries = (serve entries signal available).chain ++ (serve entries signal available).rest := by
  induction entries generalizing signal available with
  | nil => rfl
  | cons front rest unserved =>
    simp only [serve]
    split
    · split <;> rfl
    · exact congrArg (front :: ·) (unserved _ _)

/-- A drain writes `aux` words only. -/
theorem serve_reads {α : Type} {read : Signal → α}
    (apart : ∀ signal aux, read (signal.setAux aux) = read signal)
    (entries : List ι) (signal : ι → Signal) (available : ℕ) (node : ι) :
    read ((serve entries signal available).signal node) = read (signal node) := by
  have setAux (signal : ι → Signal) (front : ι) (aux : ℕ) :
      read (Function.update signal front ((signal front).setAux aux) node) =
        read (signal node) := by
    by_cases same : node = front
    · subst same
      rw [Function.update_self, apart]
    · rw [Function.update_of_ne same]
  induction entries generalizing signal available with
  | nil => rfl
  | cons front rest unserved =>
    simp only [serve]
    split
    · split
      · exact setAux signal front _
      · rfl
    · exact (unserved _ _).trans (setAux signal front 0)

theorem serve_value (entries : List ι) (signal : ι → Signal) (available : ℕ) (node : ι) :
    ((serve entries signal available).signal node).value = (signal node).value :=
  serve_reads (fun _ _ => rfl) entries signal available node

end Serve

/-! ### Every step is a move -/

/-- The step is a move of `party` from `pc`. -/
abbrev MovesFrom (state next : State ι γ) (party : ι) (pc : Pc ι γ) : Prop :=
  ∃ pc', discipline.Moves state.waiters next.waiters party pc pc'

/-- The request is at most `MAX_PERMITS`, or the semaphore is closed, or nobody waits and it has as
many permits. -/
def Admits (width : PointerWidth) (state : State ι γ) (party : ι) : Prop :=
  state.requested party ≤ maxPermits width ∨ isClosed state.pool = true ∨
    (hasQueue state.pool = false ∧ state.requested party ≤ permits state.pool)

instance (width : PointerWidth) (state : State ι γ) (party : ι) :
    Decidable (Admits width state party) :=
  inferInstanceAs (Decidable (_ ∨ _ ∨ _))

/-- **The second `try_acquire` of a poll on a request above `MAX_PERMITS`** finds the semaphore
closed, or finds all the permits it asks for. -/
def bounded (width : PointerWidth) (state : State ι γ) (label : Label ι γ) : Bool :=
  match label.2, state.pc label.1 with
  | .advance, .tryLoad (.pollAcquireSlow _) => decide (Admits width state label.1)
  | .advance, .tryCas (.pollAcquireSlow _) cur =>
    decide (state.pool = cur ∨ Admits width state label.1)
  | _, _ => true

section Moves

variable {width : PointerWidth} {state next : State ι γ} {party : ι} {pc : Pc ι γ} {mode : Mode}
  {after : After γ}

/-- A step between points outside of everything: no chain, no lock, no node given away. -/
structure Plain (pc : Pc ι γ) : Prop where
  chain : chainOf pc = []
  free : lockedAt pc = false
  waits : ∀ value, waitsAt pc value = false

section

variable (source : state.pc party = pc) (plain : Plain pc)
include source plain

theorem acquired_moves (pool : ℕ) :
    MovesFrom state (acquired { state with pool := pool } party mode) party pc := by
  cases mode with
  | wait =>
    exact ⟨.idle, .goto source rfl plain.chain.symm plain.free.symm (plain.waits _).symm (.inl rfl)⟩
  | poll waker =>
    exact ⟨.future, .write source rfl plain.chain.symm plain.free.symm (plain.waits _) rfl
      (.inl rfl)⟩

theorem refused_moves : MovesFrom state (refused state party mode) party pc := by
  cases mode with
  | wait =>
    exact ⟨.idle, .goto source rfl plain.chain.symm plain.free.symm (plain.waits _).symm (.inl rfl)⟩
  | poll waker =>
    exact ⟨.future, .write source rfl plain.chain.symm plain.free.symm (plain.waits _) rfl
      (.inl rfl)⟩

/-- A thread whose request is too large unwinds with its node; a future's must not be. -/
theorem enqueueOrAcquire_moves {node : Signal} (armed : node.value = armedValue mode)
    (bounded : mode.isPoll = true → state.requested party ≤ maxPermits width) :
    MovesFrom state (enqueueOrAcquire width (state.setSignal party node) party mode) party pc := by
  unfold enqueueOrAcquire
  split
  · exact ⟨.enqueueLock mode, .write source rfl plain.chain.symm plain.free.symm (plain.waits _) rfl
      (.inr (congrArg some armed.symm))⟩
  · rename_i large
    cases mode with
    | wait =>
      exact ⟨.idle, .write source rfl plain.chain.symm plain.free.symm (plain.waits _) rfl
        (.inl rfl)⟩
    | poll waker => exact absurd (bounded rfl) large

theorem tryNext_moves {attempt : Attempt}
    (bounded : ∀ waker, attempt = .pollAcquireSlow waker → isClosed state.pool = false →
      (hasQueue state.pool = true ∨ permits state.pool < state.requested party) →
      state.requested party ≤ maxPermits width) :
    MovesFrom state (tryNext width state party attempt state.pool) party pc := by
  have goto (pc' : Pc ι γ) (plain' : Plain pc') (own : ownValue pc' = none) :
      MovesFrom state (state.goto party pc') party pc :=
    ⟨pc', .goto source rfl (plain'.chain.trans plain.chain.symm) (plain'.free.trans plain.free.symm)
      ((plain'.waits _).trans (plain.waits _).symm) (.inl own)⟩
  unfold tryNext
  split
  · cases attempt with
    | tryAcquire =>
      exact ⟨.idle, .goto source rfl plain.chain.symm plain.free.symm (plain.waits _).symm
        (.inl rfl)⟩
    | acquireSync => exact goto _ ⟨rfl, rfl, fun _ => rfl⟩ rfl
    | acquireSyncSlow => exact refused_moves source plain
    | pollAcquire waker => exact goto _ ⟨rfl, rfl, fun _ => rfl⟩ rfl
    | pollAcquireSlow waker => exact refused_moves source plain
  · rename_i opened
    split
    · rename_i none
      simp only [Bool.or_eq_true, decide_eq_true_eq] at none
      cases attempt with
      | tryAcquire =>
        exact ⟨.idle, .goto source rfl plain.chain.symm plain.free.symm (plain.waits _).symm
          (.inl rfl)⟩
      | acquireSync => exact goto _ ⟨rfl, rfl, fun _ => rfl⟩ rfl
      | acquireSyncSlow => exact enqueueOrAcquire_moves source plain rfl never
      | pollAcquire waker => exact goto _ ⟨rfl, rfl, fun _ => rfl⟩ rfl
      | pollAcquireSlow waker =>
        exact enqueueOrAcquire_moves source plain rfl fun _ =>
          bounded waker rfl (Bool.eq_false_iff.mpr opened) none
    · exact goto _ ⟨rfl, rfl, fun _ => rfl⟩ rfl

end

theorem tryCas_moves {attempt : Attempt} {cur : ℕ} (source : state.pc party = .tryCas attempt cur)
    (bounded : state.pool ≠ cur → ∀ waker, attempt = .pollAcquireSlow waker →
      isClosed state.pool = false →
      (hasQueue state.pool = true ∨ permits state.pool < state.requested party) →
      state.requested party ≤ maxPermits width) :
    MovesFrom state (tryCas width state party attempt cur) party (.tryCas attempt cur) := by
  have plain : Plain (.tryCas attempt cur : Pc ι γ) := ⟨rfl, rfl, fun _ => rfl⟩
  unfold tryCas
  split
  · unfold tryTaken
    cases attempt <;> exact acquired_moves source plain _
  · rename_i changed
    exact tryNext_moves source plain (bounded changed)

theorem releaseAdd_moves {n : ℕ} (owned : Owned state)
    (source : state.pc party = .releaseAdd n after) :
    MovesFrom state (releaseAdd width state party n after) party (.releaseAdd n after) := by
  have rest : Returns after (state.signal party).value [] (finishPc after : Pc ι γ) :=
    finishPc_returns (complete_of_own owned source rfl)
  unfold releaseAdd
  dsimp only
  split
  · split
    · exact ⟨.drainLock after, .goto source rfl rfl rfl rfl (.inr rfl)⟩
    · exact ⟨_, .goto source finish_waiters rest.chain rest.free rest.waits rest.own⟩
  · exact ⟨_, .goto source releasePanic_waiters rest.chain rest.free rest.waits rest.own⟩

theorem drainLock_moves (owned : Owned state) (source : state.pc party = .drainLock after)
    (stepped : drainLock state party after = some next) :
    MovesFrom state next party (.drainLock after) := by
  have rest : Returns after (state.signal party).value [] (finishPc after : Pc ι γ) :=
    finishPc_returns (complete_of_own owned source rfl)
  unfold drainLock at stepped
  split at stepped <;> cases stepped
  · exact ⟨_, .goto source finish_waiters rest.chain rest.free rest.waits rest.own⟩
  · rename_i held result
    exact ⟨_, .lock source result rfl rfl rfl rfl (.inr rfl)⟩

/-- Both ways on from a read of `drain` hold the lock and rely on the same. -/
theorem drainTake_moves {cur : ℕ} (source : state.pc party = pc) (chain : chainOf pc = [])
    (held : lockedAt pc = true) (waits : ∀ value, waitsAt pc value = false)
    (own : ownValue pc = after.own) :
    MovesFrom state (state.goto party (drainTake after cur)) party pc := by
  unfold drainTake
  split
  · exact ⟨_, .goto source rfl chain.symm held.symm (waits _).symm (.inr own.symm)⟩
  · exact ⟨_, .goto source rfl chain.symm held.symm (waits _).symm (.inr own.symm)⟩

theorem drainCas_moves {cur : ℕ} (source : state.pc party = .drainCas after cur) :
    MovesFrom state (drainCas state party after cur) party (.drainCas after cur) := by
  unfold drainCas
  split
  · exact ⟨.drainServe after (permits cur), .goto source rfl rfl rfl rfl (.inr rfl)⟩
  · exact drainTake_moves source rfl rfl (fun _ => rfl) rfl

theorem drainServe_moves {available : ℕ} (source : state.pc party = .drainServe after available) :
    MovesFrom state (drainServe state party after available) party
      (.drainServe after available) := by
  have front := serve_entries state.queue.entries state.signal available
  have values := serve_value state.queue.entries state.signal available
  unfold drainServe
  dsimp only
  split
  · exact ⟨_, .pop source rfl front values rfl rfl rfl (.inr rfl)⟩
  · exact ⟨_, .pop source rfl front values rfl rfl rfl (.inr rfl)⟩

theorem enqueueLock_moves (source : state.pc party = .enqueueLock mode)
    (stepped : enqueueLock state party mode = some next) :
    MovesFrom state next party (.enqueueLock mode) := by
  unfold enqueueLock at stepped
  split at stepped <;> cases stepped
  rename_i held result
  exact ⟨_, .lock source result rfl rfl rfl rfl (.inr rfl)⟩

/-- The three ways on from a read of `enqueue_or_acquire`. -/
theorem enqueueNext_moves {cur pool : ℕ} (source : state.pc party = pc) (chain : chainOf pc = [])
    (held : lockedAt pc = true) (waits : ∀ value, waitsAt pc value = false)
    (own : ownValue pc = some (armedValue mode)) :
    MovesFrom state ({ state with pool := pool }.goto party (enqueueNext state party mode cur))
      party pc := by
  unfold enqueueNext
  split
  · exact ⟨_, .goto source rfl chain.symm held.symm (waits _).symm (.inl rfl)⟩
  · split
    · exact ⟨_, .goto source rfl chain.symm held.symm (waits _).symm (.inr own.symm)⟩
    · exact ⟨_, .goto source rfl chain.symm held.symm (waits _).symm (.inr own.symm)⟩

theorem enqueueCas_moves {cur : ℕ} (source : state.pc party = .enqueueCas mode cur) :
    MovesFrom state (enqueueCas state party mode cur) party (.enqueueCas mode cur) := by
  unfold enqueueCas
  split
  · exact ⟨.unlock (.acquired mode), .goto source rfl rfl rfl rfl (.inl rfl)⟩
  · exact enqueueNext_moves source rfl rfl (fun _ => rfl) rfl

theorem enqueuePush_moves (owned : Owned state) (source : state.pc party = .enqueuePush mode) :
    MovesFrom state (enqueuePush state party mode) party (.enqueuePush mode) := by
  have value : (state.signal party).value = armedValue mode :=
    owned.owned party _ (congrArg ownValue source)
  have result : (enqueuePush state party mode).waiters =
      ⟨state.queue.push party, Function.update state.signal party (state.signal party),
        Function.update state.pc party (.unlock (.enqueued mode state.queue.entries.isEmpty))⟩ := by
    rw [Function.update_eq_self]
    rfl
  refine ⟨_, .push source result rfl rfl rfl ?_ ?_ rfl⟩
  · rw [value]
    exact modeWaits_armedValue mode
  · rw [value]
    exact armedValue_unsignalled mode

/-- **The end of every critical section.** -/
theorem unlocked_moves {back : Unlock ι γ} (owned : Owned state) (source : state.pc party = pc)
    (chain : chainOf pc = back.chain) (held : lockedAt pc = true)
    (waits : ∀ value, waitsAt pc value = back.waits value) (own : ownValue pc = back.own) :
    MovesFrom state (unlocked { state with queue := state.queue.unlock } party back) party pc := by
  have goto (pc' : Pc ι γ) (chain' : chainOf pc' = back.chain) (free : lockedAt pc' = false)
      (waits' : waitsAt pc' (state.signal party).value = back.waits (state.signal party).value)
      (own' : ownValue pc' = none) :
      MovesFrom state ({ state with queue := state.queue.unlock }.goto party pc') party pc :=
    ⟨pc', .unlock source rfl (chain'.trans chain.symm) held free (waits'.trans (waits _).symm)
      (.inl own')⟩
  cases back with
  | acquired mode =>
    cases mode with
    | wait => exact ⟨.idle, .unlock source rfl chain.symm held rfl (waits _).symm (.inl rfl)⟩
    | poll waker =>
      exact ⟨.future, .unlockWrite source rfl chain.symm held rfl (waits _) rfl (.inl rfl)⟩
  | closed mode =>
    cases mode with
    | wait => exact ⟨.idle, .unlock source rfl chain.symm held rfl (waits _).symm (.inl rfl)⟩
    | poll waker =>
      exact ⟨.future, .unlockWrite source rfl chain.symm held rfl (waits _) rfl (.inl rfl)⟩
  | enqueued mode first =>
    cases mode with
    | wait =>
      cases first with
      | false => exact goto _ rfl rfl rfl rfl
      | true => exact goto _ rfl rfl rfl rfl
    | poll waker => exact goto _ rfl rfl rfl rfl
  | drained popped after =>
    have rest :
        Returns after (state.signal party).value popped (signalPc false after popped : Pc ι γ) :=
      signalPc_returns (complete_of_own owned source own)
    refine ⟨_, .unlock source signalNext_waiters (rest.chain.trans chain.symm) held rest.free
      (rest.waits.trans (waits _).symm) ?_⟩
    exact rest.own.imp id (·.trans own.symm)
  | closing popped =>
    have rest :
        Returns .done (state.signal party).value popped (signalPc true .done popped : Pc ι γ) :=
      signalPc_returns (complete_of_none rfl)
    refine ⟨_, .unlock source signalNext_waiters (rest.chain.trans chain.symm) held rest.free
      (rest.waits.trans (waits _).symm) ?_⟩
    exact rest.own.imp id (·.trans own.symm)
  | cancelFound granted headChanged =>
    unfold unlocked
    dsimp only
    split
    · have rest : Returns .done (state.signal party).value [] (releasePc granted .done : Pc ι γ) :=
        releasePc_returns (complete_of_none rfl)
      refine ⟨_, .unlock source release_waiters (rest.chain.trans chain.symm) held rest.free
        (rest.waits.trans (waits _).symm) ?_⟩
      exact rest.own.imp id (·.trans own.symm)
    · split
      · exact goto _ rfl rfl rfl rfl
      · exact goto _ rfl rfl rfl rfl
  | cancelMissing => exact goto _ rfl rfl rfl rfl

theorem unlock_moves {back : Unlock ι γ} (owned : Owned state)
    (source : state.pc party = .unlock back) :
    MovesFrom state (unlock width state party back) party (.unlock back) := by
  unfold unlock
  split
  · exact ⟨.unlockStore back, .goto source rfl rfl rfl rfl (.inr rfl)⟩
  · exact unlocked_moves owned source rfl rfl (fun _ => rfl) rfl

theorem signalPublish_moves {node : ι} {rest : List ι} {closed : Bool} (owned : Owned state)
    (source : state.pc party = .signalPublish node rest closed after) :
    MovesFrom state (signalPublish state party node rest closed after) party
      (.signalPublish node rest closed after) := by
  have back : Returns after (state.signal party).value rest (signalPc closed after rest : Pc ι γ) :=
    signalPc_returns (complete_of_own owned source rfl)
  have kind : (discipline (ι := ι) (γ := γ)).signals (signalValue closed) = true := by
    cases closed <;> rfl
  have apart : node ≠ party := by
    rintro rfl
    exact owned.apart node (by rw [source]; exact List.mem_cons_self)
  exact ⟨_, .publishTo apart source signalNext_waiters kind
    (congrArg (node :: ·) back.chain.symm) back.free back.waits back.own⟩

/-- A waiter that has read its signal takes its node back and returns permits, or none. -/
theorem release_consumes {n : ℕ} (source : state.pc party = pc) (chain : chainOf pc = [])
    (free : lockedAt pc = false) (waited : waitsAt pc (state.signal party).value = true)
    (final : (state.signal party).value.isFinal = true) (own : after.own = none) :
    MovesFrom state (release state party n after) party pc := by
  have rest : Returns after (state.signal party).value [] (releasePc n after : Pc ι γ) :=
    releasePc_returns (complete_of_none own)
  exact ⟨_, .consume source release_waiters (rest.chain.trans chain.symm)
    (rest.free.trans free.symm) waited final rest.waits (rest.own.elim id (·.trans own))⟩

theorem finishSync_moves (source : state.pc party = pc) (chain : chainOf pc = [])
    (free : lockedAt pc = false) (waited : waitsAt pc (state.signal party).value = true)
    (final : (state.signal party).value.isFinal = true) :
    MovesFrom state (finishSync state party (state.signal party).value) party pc := by
  unfold finishSync
  split
  · exact ⟨.idle, .consume source rfl chain.symm free.symm waited final rfl rfl⟩
  · exact release_consumes source chain free waited final rfl

theorem syncSpin_moves (source : state.pc party = .syncSpin) :
    MovesFrom state (syncSpin state party) party .syncSpin := by
  unfold syncSpin
  dsimp only
  split
  · rename_i final
    exact finishSync_moves source rfl rfl rfl final
  · exact ⟨.syncSwap, .goto source rfl rfl rfl rfl (.inl rfl)⟩

theorem syncSwap_moves (source : state.pc party = .syncSwap) :
    MovesFrom state (syncSwap state party) party .syncSwap := by
  unfold syncSwap
  dsimp only
  split
  · rename_i final
    unfold finishSync
    split
    · exact ⟨.idle, .consumeWrite source rfl rfl rfl rfl final rfl (.inl rfl)⟩
    · have rest : Returns .closedWait .initWaiting []
          (releasePc
          ((state.setSignal party ((state.signal party).setValue .initWaiting)).granted party)
            .closedWait : Pc ι γ) := releasePc_returns (complete_of_none rfl)
      exact ⟨_, .consumeWrite source release_waiters rest.chain rest.free rfl final rest.waits
        (.inl (rest.own.elim id id))⟩
  · rename_i fresh
    exact ⟨.syncPark, .touch source rfl rfl rfl rfl (.inr ⟨Bool.eq_false_iff.mpr fresh, rfl⟩) rfl⟩

theorem syncPark_moves (source : state.pc party = .syncPark)
    (stepped : syncPark state party = some next) : MovesFrom state next party .syncPark := by
  unfold syncPark at stepped
  dsimp only at stepped
  split at stepped <;> cases stepped
  rename_i final
  exact finishSync_moves source rfl rfl rfl final

/-- The end of a poll on a final value, from a point where the wait is read off the value. -/
theorem pollFinal_moves {waker : Waker} (source : state.pc party = pc) (chain : chainOf pc = [])
    (free : lockedAt pc = false) (waits : ∀ value, waitsAt pc value = valueWaits value)
    (final : (state.signal party).value.isFinal = true) :
    MovesFrom state (pollFinal state party waker (state.signal party).value) party pc := by
  unfold pollFinal
  split
  · exact ⟨.future, .goto source rfl chain.symm free.symm (waits _).symm (.inl rfl)⟩
  · rename_i unreturned
    have waited : waitsAt pc (state.signal party).value = true := by
      rw [waits]
      revert final unreturned
      cases (state.signal party).value <;> simp [SignalValue.isFinal, valueWaits]
    split
    · have rest :
          Returns .closedPoll .returned [] (releasePc (state.granted party) .closedPoll : Pc ι γ) :=
        releasePc_returns fun own relies => Option.some.inj relies
      exact ⟨_, .consumeWrite source release_waiters (rest.chain.trans chain.symm)
        (rest.free.trans free.symm) waited final rest.waits rest.own⟩
    · exact ⟨.future, .consumeWrite source rfl chain.symm free.symm waited final rfl (.inl rfl)⟩

theorem poll_moves {waker : Waker} (source : state.pc party = .future) :
    MovesFrom state (poll state party waker) party .future := by
  unfold poll
  dsimp only
  split
  · rename_i fresh
    exact ⟨.tryLoad (.pollAcquire waker), .goto source rfl rfl rfl (congrArg valueWaits fresh).symm
      (.inl rfl)⟩
  · rename_i started
    split
    · exact ⟨.rearmRegister waker, .goto source rfl rfl rfl rfl (.inl rfl)⟩
    · rename_i signalled
      refine pollFinal_moves source rfl rfl (fun _ => rfl) ?_
      revert started signalled
      cases (state.signal party).value <;> simp [SignalValue.isFinal]

theorem rearmRegister_moves {waker : Waker} (source : state.pc party = .rearmRegister waker) :
    MovesFrom state (rearmRegister state party waker) party (.rearmRegister waker) := by
  unfold rearmRegister
  dsimp only
  split
  · exact ⟨.future, .touch source rfl rfl rfl rfl (.inl rfl) rfl⟩
  · exact ⟨.rearmLoad waker, .touch source rfl rfl rfl rfl (.inl rfl) rfl⟩

theorem rearmLoad_moves {waker : Waker} (source : state.pc party = .rearmLoad waker) :
    MovesFrom state (rearmLoad state party waker) party (.rearmLoad waker) := by
  unfold rearmLoad
  dsimp only
  split
  · rename_i final
    exact pollFinal_moves source rfl rfl (fun _ => rfl) final
  · exact ⟨.future, .goto source rfl rfl rfl rfl (.inl rfl)⟩

theorem drop_moves (source : state.pc party = .future) :
    MovesFrom state (drop state party) party .future := by
  unfold drop
  split
  case h_1 value | h_2 value =>
    exact ⟨.idle, .goto source rfl rfl rfl (congrArg valueWaits value).symm (.inl rfl)⟩
  all_goals exact ⟨.dropLoad, .goto source rfl rfl rfl rfl (.inl rfl)⟩

theorem dropLoad_moves (source : state.pc party = .dropLoad) :
    MovesFrom state (dropLoad state party) party .dropLoad := by
  unfold dropLoad
  cases value : (state.signal party).value with
  | initWaiting =>
    exact ⟨.cancelLock, .goto source rfl rfl rfl (congrArg valueWaits value).symm (.inl rfl)⟩
  | uninit | returned =>
    exact ⟨.idle, .goto source rfl rfl rfl (congrArg valueWaits value).symm (.inl rfl)⟩
  | all | retry =>
    exact ⟨.idle, .consume source rfl rfl rfl (congrArg valueWaits value)
      (congrArg SignalValue.isFinal value) rfl rfl⟩
  | signaled | closed =>
    exact release_consumes source rfl rfl (congrArg valueWaits value)
      (congrArg SignalValue.isFinal value) rfl

theorem cancelLock_moves (source : state.pc party = .cancelLock)
    (stepped : cancelLock state party = some next) : MovesFrom state next party .cancelLock := by
  unfold cancelLock at stepped
  split at stepped <;> cases stepped
  · exact ⟨.cancelWait, .goto source rfl rfl rfl rfl (.inl rfl)⟩
  · rename_i held result
    exact ⟨_, .lock source result rfl rfl rfl rfl (.inl rfl)⟩

theorem cancelRemove_moves (source : state.pc party = .cancelRemove) :
    MovesFrom state (cancelRemove state party) party .cancelRemove := by
  unfold cancelRemove
  dsimp only
  split
  · rename_i member
    exact ⟨_, .remove source member rfl rfl rfl rfl rfl⟩
  · exact ⟨.unlock .cancelMissing, .goto source rfl rfl rfl rfl (.inl rfl)⟩

theorem cancelWait_moves (source : state.pc party = .cancelWait)
    (stepped : cancelWait state party = some next) : MovesFrom state next party .cancelWait := by
  unfold cancelWait at stepped
  dsimp only at stepped
  split at stepped <;> cases stepped
  rename_i final
  exact release_consumes source rfl rfl rfl final rfl

theorem closeFlag_moves (source : state.pc party = .closeFlag) :
    MovesFrom state (closeFlag state party) party .closeFlag := by
  unfold closeFlag
  dsimp only
  split
  · exact ⟨.idle, .goto source rfl rfl rfl rfl (.inl rfl)⟩
  · split
    · exact ⟨.closeLock, .goto source rfl rfl rfl rfl (.inl rfl)⟩
    · exact ⟨.idle, .goto source rfl rfl rfl rfl (.inl rfl)⟩

theorem closeLock_moves (source : state.pc party = .closeLock)
    (stepped : closeLock state party = some next) : MovesFrom state next party .closeLock := by
  unfold closeLock at stepped
  split at stepped <;> cases stepped
  · exact ⟨.idle, .goto source rfl rfl rfl rfl (.inl rfl)⟩
  · rename_i held result
    exact ⟨_, .lock source result rfl rfl rfl rfl (.inl rfl)⟩

theorem forgetNext_moves {n cur : ℕ} (source : state.pc party = pc) (plain : Plain pc) :
    MovesFrom state (forgetNext state party n cur) party pc := by
  unfold forgetNext
  split
  · exact ⟨.idle, .goto source rfl plain.chain.symm plain.free.symm (plain.waits _).symm (.inl rfl)⟩
  · exact ⟨.forgetCas n cur, .goto source rfl plain.chain.symm plain.free.symm (plain.waits _).symm
      (.inl rfl)⟩

theorem forgetCas_moves {n cur : ℕ} (source : state.pc party = .forgetCas n cur) :
    MovesFrom state (forgetCas state party n cur) party (.forgetCas n cur) := by
  unfold forgetCas
  split
  · exact ⟨.idle, .goto source rfl rfl rfl rfl (.inl rfl)⟩
  · exact forgetNext_moves source ⟨rfl, rfl, fun _ => rfl⟩

/-- **Every step inside a call is a move.** -/
theorem advance_moves (owned : Owned state) (fits : bounded width state (party, .advance) = true)
    (stepped : advance width state party = some next) :
    MovesFrom state next party (state.pc party) := by
  cases source : state.pc party <;>
    simp only [advance, source, Option.some.injEq, reduceCtorEq] at stepped <;>
    simp only [bounded, source] at fits
  case drainLock => exact drainLock_moves owned source stepped
  case enqueueLock => exact enqueueLock_moves source stepped
  case syncPark => exact syncPark_moves source stepped
  case cancelLock => exact cancelLock_moves source stepped
  case cancelWait => exact cancelWait_moves source stepped
  case closeLock => exact closeLock_moves source stepped
  all_goals subst stepped
  case tryLoad attempt =>
    refine tryNext_moves source ⟨rfl, rfl, fun _ => rfl⟩ fun waker slow opened none => ?_
    subst slow
    rcases of_decide_eq_true fits with small | closed | ⟨empty, enough⟩
    · exact small
    · simp [opened] at closed
    · rcases none with queued | few
      · simp [empty] at queued
      · omega
  case tryCas attempt cur =>
    refine tryCas_moves source fun changed waker slow opened none => ?_
    subst slow
    rcases of_decide_eq_true fits with same | small | closed | ⟨empty, enough⟩
    · exact absurd same changed
    · exact small
    · simp [opened] at closed
    · rcases none with queued | few
      · simp [empty] at queued
      · omega
  case releaseAdd => exact releaseAdd_moves owned source
  case drainLoad => exact drainTake_moves source rfl rfl (fun _ => rfl) rfl
  case drainCas => exact drainCas_moves source
  case drainServe => exact drainServe_moves source
  case drainReturn => exact ⟨_, .goto source rfl rfl rfl rfl (.inr rfl)⟩
  case enqueueFlag => exact enqueueNext_moves source rfl rfl (fun _ => rfl) rfl
  case enqueueCas => exact enqueueCas_moves source
  case enqueuePush => exact enqueuePush_moves owned source
  case unlock => exact unlock_moves owned source
  case unlockStore => exact unlocked_moves owned source rfl rfl (fun _ => rfl) rfl
  case signalTake => exact ⟨_, .takeWaker source rfl rfl rfl rfl (.inr rfl)⟩
  case signalPublish => exact signalPublish_moves owned source
  case syncSpin => exact syncSpin_moves source
  case syncSwap => exact syncSwap_moves source
  case rearmRegister => exact rearmRegister_moves source
  case rearmLoad => exact rearmLoad_moves source
  case dropLoad => exact dropLoad_moves source
  case cancelRemove => exact cancelRemove_moves source
  case closeFlag => exact closeFlag_moves source
  case closePop =>
    exact ⟨_, .pop source rfl (List.append_nil _).symm (fun _ => rfl) rfl rfl rfl (.inl rfl)⟩
  case forgetLoad => exact forgetNext_moves source ⟨rfl, rfl, fun _ => rfl⟩
  case forgetCas => exact forgetCas_moves source

/-- A call on the pool starts with a release. -/
theorem release_begins {n : ℕ} {before : State ι γ} (same : state.waiters = before.waiters)
    (source : before.pc party = .idle) (own : after.own = none) :
    MovesFrom state (release before party n after) party .idle := by
  have rest : Returns after (before.signal party).value [] (releasePc n after : Pc ι γ) :=
    releasePc_returns (complete_of_none own)
  rw [MovesFrom, same]
  exact ⟨_, .goto source release_waiters rest.chain rest.free rest.waits
    (.inl (rest.own.elim id (·.trans own)))⟩

/-- **The beginning of every call is a move**; splitting, merging and forgetting permits touch no
waiter. -/
theorem begin_moves {move : Move γ} (stepped : begin width state party move = some next) :
    next.waiters = state.waiters ∨ MovesFrom state next party (state.pc party) := by
  cases move <;> simp only [begin, beginRequest] at stepped
  case advance => cases stepped
  case poll waker =>
    split at stepped <;> cases stepped
    rename_i source
    exact .inr (source ▸ poll_moves source)
  case drop =>
    split at stepped <;> cases stepped
    rename_i source
    exact .inr (source ▸ drop_moves source)
  case tryAcquire | acquire | forgetPermits =>
    split at stepped <;> cases stepped
    rename_i source
    rw [source.1]
    exact .inr ⟨_, .goto source.1 rfl rfl rfl rfl (.inl rfl)⟩
  case create =>
    split at stepped <;> cases stepped
    rename_i source
    rw [show state.pc party = .idle from source.1]
    exact .inr ⟨_, .write source.1 rfl rfl rfl rfl rfl (.inl rfl)⟩
  case close =>
    split at stepped <;> cases stepped
    rename_i source
    rw [source]
    exact .inr ⟨_, .goto source rfl rfl rfl rfl (.inl rfl)⟩
  case addPermits | dropPermit | downgrade =>
    split at stepped <;> cases stepped
    rename_i source
    rw [source.1]
    exact .inr (release_begins rfl source.1 rfl)
  case split =>
    split at stepped
    · split at stepped <;> cases stepped <;> exact .inl rfl
    · cases stepped
  case merge | forget =>
    split at stepped <;> cases stepped
    exact .inl rfl

/-- **Every step keeps the discipline**, unless it is the panic of a poll. -/
theorem step_waiting {label : Label ι γ} (waiting : Waiting state)
    (fits : bounded width state label = true)
    (stepped : step width state label = some next) : Waiting next := by
  obtain ⟨party, move⟩ := label
  unfold step at stepped
  split at stepped
  · rename_i isAdvance
    obtain rfl : move = .advance := isAdvance
    obtain ⟨pc', moves⟩ := advance_moves (owned_of_waiting waiting) fits stepped
    exact waiting.step moves
  · rcases begin_moves stepped with same | ⟨pc', moves⟩
    · rw [Waiting, same]
      exact waiting
    · exact waiting.step moves

end Moves

/-- The runs in which no poll panics on a request above `MAX_PERMITS`. -/
abbrev BoundedRuns (width : PointerWidth) (n : ℕ) (state : State ι γ) : Prop :=
  (machine ι γ width n).ReachableBy (fun state label _ => bounded width state label = true) state

/-- **The discipline holds in every state of every such run.** -/
theorem waiting_of_reachable {width : PointerWidth} {n : ℕ} {state : State ι γ}
    (reach : BoundedRuns width n state) : Waiting state := by
  refine reach.invariant Waiting ?_ ?_
  · rintro _ ⟨-, kind, rfl⟩
    exact Kept.start rfl fun _ => ⟨rfl, rfl, rfl, rfl⟩
  · intro state label next _ waiting stepped fits
    exact step_waiting waiting fits stepped

end Xutex.Semaphore
