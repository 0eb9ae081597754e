/-
**Calls that run to completion.**

A call of a semaphore that nobody else is using: the party takes its steps until the call has
returned. `complete` does that for a bounded number of steps; `Completes` says that some number is
enough, and then every larger one is (`complete_mono`). Nothing here assumes that the call returns:
each of the rules below takes the state a party is in, with the queue unlocked where it has to be,
and says where the party's own steps lead.

* `completes_signals` — `signal_all` over a popped chain.
* `completes_unlock` — `LockedQueue::unlock`, which clears the flag of an empty queue.
* `completes_drain` — a whole `drain`: what `serve` leaves, with every popped node signalled.
* `completes_take`, `completes_enqueue` — a first poll that takes its permits, and one that links
  its node.
* `completes_cancel` — the drop of a pending future, up to the release or the drain at its end.
-/

import Xutex.Semaphore.Permits

set_option linter.unusedSectionVars false

namespace Xutex.Semaphore

variable {ι γ : Type} [DecidableEq ι] [DecidableEq γ] {width : PointerWidth}

/-! ### A call and its end -/

/-- The party has returned from its last call. -/
def ended : Pc ι γ → Bool
  | .idle | .future => true
  | _ => false

/-- The party's own steps until its call has returned, at most `fuel` of them. -/
def complete (width : PointerWidth) (party : ι) : ℕ → State ι γ → Option (State ι γ)
  | 0, state => if ended (state.pc party) then some state else none
  | fuel + 1, state =>
    if ended (state.pc party) then some state else (advance width state party).bind
      (complete width party fuel)

/-- A call that nobody interrupts. -/
def call (width : PointerWidth) (fuel : ℕ) (party : ι) (move : Move γ) (state : State ι γ) :
    Option (State ι γ) :=
  (begin width state party move).bind (complete width party fuel)

/-- More fuel does no harm. -/
theorem complete_mono {party : ι} {fuel more : ℕ} {state target : State ι γ}
    (completed : complete width party fuel state = some target) (enough : fuel ≤ more) :
    complete width party more state = some target := by
  induction fuel generalizing more state with
  | zero =>
    simp only [complete] at completed
    split at completed
    · rename_i returned
      cases more <;> simp only [complete, returned, if_true] <;> exact completed
    · cases completed
  | succ fuel ih =>
    obtain ⟨more, rfl⟩ : ∃ fewer, more = fewer + 1 := ⟨more - 1, by omega⟩
    simp only [complete] at completed ⊢
    split
    · rename_i returned
      rw [if_pos returned] at completed
      exact completed
    · rename_i running
      rw [if_neg running] at completed
      obtain ⟨next, stepped, completed⟩ := Option.bind_eq_some_iff.mp completed
      rw [stepped]
      exact ih completed (by omega)

/-- The party's own steps end its call in `target`. -/
def Completes (width : PointerWidth) (party : ι) (state target : State ι γ) : Prop :=
  ∃ fuel, complete width party fuel state = some target

variable {party : ι} {state next target : State ι γ}

theorem Completes.refl (returned : ended (state.pc party) = true) :
    Completes width party state state :=
  ⟨0, by rw [complete, if_pos returned]⟩

theorem Completes.step (later : Completes width party next target)
    (stepped : advance width state party = some next) : Completes width party state target := by
  obtain ⟨fuel, completed⟩ := later
  have running : ¬ ended (state.pc party) = true := by
    intro returned
    revert returned stepped
    unfold advance
    cases state.pc party <;> simp [ended]
  refine ⟨fuel + 1, ?_⟩
  rw [complete, if_neg running, stepped]
  exact completed

/-- A call that begins and completes does so for all sufficient fuel. -/
theorem Completes.call {move : Move γ} (later : Completes width party next target)
    (begun : begin width state party move = some next) :
    ∃ bound, ∀ fuel ≥ bound, call width fuel party move state = some target := by
  obtain ⟨bound, completed⟩ := later
  refine ⟨bound, fun fuel enough => ?_⟩
  rw [Semaphore.call, begun]
  exact complete_mono completed enough

section Goto

/-! Where a party was does not matter to a function that sends it elsewhere. -/

variable (pc : Pc ι γ)

theorem finish_goto (after : After γ) :
    finish (state.goto party pc) party after = finish state party after := by
  cases after <;> simp [finish]

theorem release_goto (n : ℕ) (after : After γ) :
    release (state.goto party pc) party n after = release state party n after := by
  unfold release
  rw [finish_goto]
  simp

theorem signalNext_goto (closed : Bool) (after : After γ) (chain : List ι) :
    signalNext (state.goto party pc) party closed after chain =
      signalNext state party closed after chain := by
  cases chain with
  | nil => exact finish_goto pc after
  | cons front rest => simp [signalNext]

theorem unlocked_goto (back : Unlock ι γ) :
    unlocked (state.goto party pc) party back = unlocked state party back := by
  unfold unlocked
  split
  case h_6 chain after => exact signalNext_goto pc false after chain
  case h_7 chain => exact signalNext_goto pc true .done chain
  case h_8 granted headChanged =>
    rw [release_goto]
    simp
  all_goals simp [acquired, refused]

end Goto

/-! ### Signalling a chain -/

/-- The nodes after `signal_all` has signalled those of the chain. -/
def signalled (chain : List ι) (signal : ι → Signal) (node : ι) : Signal :=
  if node ∈ chain then (signal node).take.setValue .signaled else signal node

theorem signalled_value (chain : List ι) (signal : ι → Signal) (node : ι) :
    (signalled chain signal node).value = if node ∈ chain then .signaled else
    (signal node).value := by
  unfold signalled
  split <;> rfl

@[simp] theorem signalled_aux (chain : List ι) (signal : ι → Signal) (node : ι) :
    (signalled chain signal node).aux = (signal node).aux := by
  unfold signalled
  split <;> rfl

/-- A node is signalled, then the rest of the chain. -/
theorem signalled_cons (front : ι) (rest : List ι) (signal : ι → Signal) :
    signalled rest (Function.update signal front ((signal front).take.setValue .signaled)) =
      signalled (front :: rest) signal := by
  funext node
  by_cases same : node = front
  · subst same
    simp only [signalled, Function.update_self, List.mem_cons, true_or, if_true]
    split <;> rfl
  · simp [signalled, same]

/-- **`signal_all`** takes the waker of every popped node and stores its value. -/
theorem completes_signals (chain : List ι) (state : State ι γ) :
    Completes width party (signalNext state party false .done chain)
      ({ state with signal := signalled chain state.signal }.goto party .idle) := by
  induction chain generalizing state with
  | nil =>
    have same : signalled [] state.signal = state.signal := by
      funext node
      simp [signalled]
    rw [same]
    exact .refl (by simp [signalNext, finish, ended])
  | cons front rest ih =>
    have later := ih (state.setSignal front ((state.signal front).take.setValue .signaled))
    rw [State.setSignal, signalled_cons,
      ← signalNext_goto (.signalPublish front rest false .done)] at later
    have publish :
        Completes width party ((state.setSignal front (state.signal front).take).goto party
        (.signalPublish front rest false .done)) _ :=
      later.step (by simp [advance, signalPublish, signalValue])
    exact publish.step (by simp [advance, signalNext, signalTake])

/-! ### Unlocking and draining -/

/-- The pool after an `unlock` that leaves `rest` linked. -/
def unlockedPool (width : PointerWidth) (rest : List ι) (pool : ℕ) : ℕ :=
  if rest.isEmpty then clearQueue width pool else pool

theorem unlockedPool_permits {rest : List ι} {pool : ℕ} (small : permits pool ≤ maxPermits width) :
    permits (unlockedPool width rest pool) = permits pool := by
  unfold unlockedPool
  split
  · exact clearQueue_permits small
  · rfl

@[simp] theorem unlockedPool_isClosed (rest : List ι) (pool : ℕ) :
    isClosed (unlockedPool width rest pool) = isClosed pool := by
  unfold unlockedPool
  split
  · exact clearQueue_isClosed
  · rfl

@[simp] theorem unlockedPool_hasQueue (rest : List ι) (pool : ℕ) :
    hasQueue (unlockedPool width rest pool) = (hasQueue pool && !rest.isEmpty) := by
  cases rest <;> simp [unlockedPool]

/-- **`LockedQueue::unlock`**: the flag of an empty queue is cleared, and the caller goes on. -/
theorem completes_unlock {rest : List ι} {back : Unlock ι γ}
    (locked : state.queue = ⟨some party, rest⟩)
    (later : Completes width party (unlocked { state with
      pool := unlockedPool width rest state.pool, queue := ⟨none, rest⟩ } party back) target) :
    Completes width party (state.goto party (.unlock back)) target := by
  cases rest with
  | nil =>
    rw [← unlocked_goto (.unlockStore back)] at later
    have store :
        Completes width party ({ state with pool := clearQueue width state.pool }.goto party
        (.unlockStore back)) target :=
      later.step (by simp [advance, WaitQueue.unlock, unlockedPool, locked])
    exact store.step (by simp [advance, unlock, locked])
  | cons front others =>
    rw [← unlocked_goto (.unlock back)] at later
    exact later.step (by simp [advance, unlock, WaitQueue.unlock, unlockedPool, locked])

/-- The loop of `drain` gives out permits, it makes none. -/
theorem serve_available_le (entries : List ι) (signal : ι → Signal) (available : ℕ) :
    (serve entries signal available).available ≤ available := by
  induction entries generalizing signal available with
  | nil => exact le_rfl
  | cons front rest ih =>
    simp only [serve]
    split
    · split
      · exact Nat.zero_le _
      · exact le_rfl
    · exact (ih _ _).trans (Nat.sub_le ..)

/-- **A whole `drain`**: the pool is taken, what `serve` does not use goes back, and the popped
nodes are signalled. -/
theorem completes_drain (party : ι) {entries : List ι} (unlocked : state.queue = ⟨none, entries⟩)
    (present : entries ≠ []) (small : permits state.pool ≤ maxPermits width) {served : Served ι}
    (serves : serve entries state.signal (permits state.pool) = served) :
    ∃ pool, permits pool = served.available ∧ isClosed pool = isClosed state.pool ∧
      hasQueue pool = (hasQueue state.pool && !served.rest.isEmpty) ∧
      Completes width party (state.goto party (.drainLock .done)) ({ state with
        pool := pool, queue := ⟨none, served.rest⟩,
        signal := signalled served.chain served.signal }.goto party .idle) := by
  have fits : served.available ≤ maxPermits width :=
    serves ▸ (serve_available_le entries state.signal _).trans small
  -- the pool while the drain holds its permits, and after it has returned the rest of them
  let taken := if permits state.pool = 0 then state.pool else takeAll state.pool
  let back := if 0 < served.available then addPermits width taken served.available else taken
  have takenPermits : permits taken = 0 := by
    unfold taken
    split
    · assumption
    · exact takeAll_permits
  have backPermits : permits back = served.available := by
    unfold back
    split
    · rw [addPermits_permits (by omega), takenPermits, Nat.zero_add]
    · omega
  have flags : isClosed back = isClosed state.pool ∧ hasQueue back = hasQueue state.pool := by
    unfold back taken
    split <;> split <;> simp
  refine ⟨unlockedPool width served.rest back, ?_, ?_, ?_, ?_⟩
  · rw [unlockedPool_permits (by omega), backPermits]
  · rw [unlockedPool_isClosed, flags.1]
  · rw [unlockedPool_hasQueue, flags.2]
  let drained : State ι γ := { state with
    pool := unlockedPool width served.rest back, queue := ⟨none, served.rest⟩,
    signal := signalled served.chain served.signal }.goto party .idle
  show Completes width party _ drained
  -- the steps, from the last to the first
  have unlocks : Completes width party ({ state with
      pool := back, queue := ⟨some party, served.rest⟩, signal := served.signal }.goto party
        (.unlock (.drained served.chain .done))) drained :=
    completes_unlock rfl (completes_signals served.chain _)
  have returns : Completes width party ({ state with
      pool := taken, queue := ⟨some party, served.rest⟩, signal := served.signal }.goto party
        (if 0 < served.available then .drainReturn .done served.available served.chain
          else .unlock (.drained served.chain .done))) drained := by
    by_cases left : 0 < served.available
    · rw [if_pos left]
      exact unlocks.step (by simp [advance, drainReturn, back, left])
    · rw [if_neg left]
      simpa only [back, if_neg left] using unlocks
  have serving : Completes width party ({ state with
      pool := taken, queue := ⟨some party, entries⟩ }.goto party
      (.drainServe .done (permits state.pool))) drained :=
    returns.step (by simp [advance, drainServe, WaitQueue.leave, serves])
  have takes : Completes width party ({ state with queue := ⟨some party, entries⟩ }.goto party
      (drainTake .done state.pool)) drained := by
    by_cases none : permits state.pool = 0
    · simpa only [drainTake, taken, none, if_true] using serving
    · rw [drainTake, if_neg none]
      exact serving.step (by simp [advance, drainCas, taken, none])
  have loads : Completes width party ({ state with queue := ⟨some party, entries⟩ }.goto party
      (.drainLoad .done)) drained :=
    takes.step (by simp [advance])
  exact loads.step (by simp [advance, drainLock, WaitQueue.lock, unlocked, present])

/-! ### A first poll -/

/-- **A poll that finds its permits** takes them with the first CAS. -/
theorem completes_take {waker : Waker} (opened : isClosed state.pool = false)
    (unflagged : hasQueue state.pool = false)
    (enough : state.requested party ≤ permits state.pool) :
    Completes width party (state.goto party (.tryLoad (.pollAcquire waker)))
      (acquired { state with pool := takePermits state.pool (state.requested party) } party
        (.poll waker)) := by
  let taken : State ι γ :=
    acquired { state with pool := takePermits state.pool (state.requested party) } party
      (.poll waker)
  show Completes width party _ taken
  have returned : Completes width party taken taken := .refl (by simp [taken, acquired, ended])
  have takes : Completes width party (state.goto party (.tryCas (.pollAcquire waker) state.pool))
      taken :=
    returned.step (by simp [advance, tryCas, tryTaken, acquired, taken])
  have fits : ¬ permits state.pool < (state.request party).permits := not_lt.mpr enough
  exact takes.step (by simp [advance, tryNext, State.requested, opened, unflagged, fits])

/-- **A poll that finds too few permits, or others in front of it**, links its node. -/
theorem completes_enqueue {waker : Waker} {entries : List ι} (opened : isClosed state.pool = false)
    (unlocked : state.queue = ⟨none, entries⟩)
    (barred : hasQueue state.pool = true ∨ permits state.pool < state.requested party)
    (behind : entries = [] → permits state.pool < state.requested party)
    (asks : state.requested party ≤ maxPermits width) :
    Completes width party (state.goto party (.tryLoad (.pollAcquire waker))) ({ state with
      pool := setQueue state.pool, queue := ⟨none, entries ++ [party]⟩,
      signal := Function.update state.signal party
        ((((state.signal party).setValue .initWaiting).register waker).setAux
        (state.requested party))
      }.goto party .future) := by
  let armed := Function.update state.signal party
    ((((state.signal party).setValue .initWaiting).register waker).setAux (state.requested party))
  let parked : State ι γ := { state with
    pool := setQueue state.pool, queue := ⟨none, entries ++ [party]⟩, signal := armed }.goto party
    .future
  show Completes width party _ parked
  have fails (attempt : Attempt) : advance width (state.goto party (.tryLoad attempt)) party =
      some (tryFailed width (state.goto party (.tryLoad attempt)) party attempt .noPermits) := by
    have short : (hasQueue state.pool || decide (permits state.pool < state.requested party)) =
        true := by
      simpa using barred
    have closed : ¬ isClosed state.pool = true := by simp [opened]
    have loads : advance width (state.goto party (.tryLoad attempt)) party =
        some (tryNext width (state.goto party (.tryLoad attempt)) party attempt state.pool) := by
      simp [advance]
    rw [loads, tryNext, if_neg closed]
    exact congrArg some (if_pos short)
  have last : (entries.isEmpty && decide (state.requested party ≤ permits state.pool)) = false := by
    cases entries with
    | nil => simpa using behind rfl
    | cons front rest => rfl
  have returned : Completes width party parked parked := .refl (by simp [parked, ended])
  have pushes : Completes width party ({ state with
      pool := setQueue state.pool, queue := ⟨some party, entries⟩, signal := armed }.goto party
        (.enqueuePush (.poll waker))) parked := by
    have unlocks : Completes width party ({ state with
        pool := setQueue state.pool, queue := ⟨some party, entries ++ [party]⟩,
        signal := armed }.goto party (.unlock (.enqueued (.poll waker) entries.isEmpty))) parked :=
      returned.step (by simp [advance, unlock, Semaphore.unlocked, WaitQueue.unlock, parked])
    exact unlocks.step (by simp [advance, enqueuePush, WaitQueue.push])
  have flags : Completes width party
      ({ state with queue := ⟨some party, entries⟩, signal := armed }.goto party
      (.enqueueFlag (.poll waker))) parked :=
    pushes.step (by simp [advance, enqueueFlag, enqueueNext, opened, last])
  have locks : Completes width party ({ state with signal := armed }.goto party
      (.enqueueLock (.poll waker))) parked :=
    flags.step (by simp [advance, enqueueLock, WaitQueue.lock, unlocked])
  have retries : Completes width party (state.goto party (.tryLoad (.pollAcquireSlow waker)))
      parked :=
    locks.step (by rw [fails]; simp [tryFailed, enqueueOrAcquire, asks, armed])
  exact retries.step (by rw [fails]; simp [tryFailed])

/-! ### A drop that cancels -/

/-- **The drop of a pending future** unlinks its node; `cancelFound` says how it goes on. -/
theorem completes_cancel {entries rest : List ι} {headChanged : Bool}
    (waits : (state.signal party).value = .initWaiting) (unlocked : state.queue = ⟨none, entries⟩)
    (linked : party ∈ entries) (removed : entries.erase party = rest)
    (changed : (decide (entries.head? = some party) && !rest.isEmpty) = headChanged)
    (later : Completes width party (Semaphore.unlocked { state with
      pool := unlockedPool width rest state.pool, queue := ⟨none, rest⟩ } party
        (.cancelFound (state.granted party) headChanged)) target) :
    Completes width party (state.goto party .dropLoad) target := by
  subst removed changed
  have present : entries ≠ [] := List.ne_nil_of_mem linked
  have unlocks :
      Completes width party ({ state with queue := ⟨some party, entries.erase party⟩ }.goto party
      (.unlock (.cancelFound (state.granted party)
        (decide (entries.head? = some party) && !(entries.erase party).isEmpty)))) target :=
    completes_unlock rfl later
  have removes : Completes width party ({ state with queue := ⟨some party, entries⟩ }.goto party
      .cancelRemove) target :=
    unlocks.step (by
      simp only [advance, cancelRemove, State.goto, Function.update_self, if_pos linked,
        Function.update_idem]
      rfl)
  have locks : Completes width party (state.goto party .cancelLock) target :=
    removes.step (by simp [advance, cancelLock, WaitQueue.lock, unlocked, present])
  exact locks.step (by simp [advance, dropLoad, waits])

end Xutex.Semaphore
