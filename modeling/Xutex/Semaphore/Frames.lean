/-
**What the steps of the semaphore do to the shared words.**

The pool word and the wait queue are all that the parties share apart from their nodes. This module
says once, for every program point, what the next step writes there, and where the points at which
something is known about the shared words are entered. Invariants of the pool and the queue read
their steps off these lemmas.

* `Untouched` — a step that leaves the pool, the queue and the requests as they were;
  `begin_untouched`: so does the beginning of every call, but for the request.
* `poolAfter`, `queueAfter` — the pool and the queue after the step of a program point;
  `advance_shared`: **every step writes exactly this.**
* `advance_enters` — **how the guarded points are entered**: the CAS points of `try_acquire` and
  `enqueue_or_acquire`, the critical section of an enqueuer and that of a closer.
-/

import Xutex.Semaphore.Waiting

set_option linter.unusedSectionVars false

namespace Xutex.Semaphore

open Concurrency

variable {ι γ : Type} [DecidableEq ι] [DecidableEq γ]

/-! ### Steps that write no shared word -/

/-- The pool, the queue and the requests are as they were. -/
structure Untouched (state next : State ι γ) : Prop where
  pool : next.pool = state.pool
  queue : next.queue = state.queue
  request : next.request = state.request

section Untouched

variable {width : PointerWidth} {state next : State ι γ} {party : ι} {after : After γ} {mode : Mode}

theorem finish_untouched : Untouched state (finish state party after) := by
  cases after <;> exact ⟨rfl, rfl, rfl⟩

theorem release_untouched {n : ℕ} : Untouched state (release state party n after) := by
  unfold release
  split
  · exact finish_untouched
  · exact ⟨rfl, rfl, rfl⟩

theorem signalNext_untouched {closed : Bool} {chain : List ι} :
    Untouched state (signalNext state party closed after chain) := by
  cases chain with
  | nil => exact finish_untouched
  | cons node rest => exact ⟨rfl, rfl, rfl⟩

theorem acquired_untouched : Untouched state (acquired state party mode) := by
  cases mode <;> exact ⟨rfl, rfl, rfl⟩

theorem refused_untouched : Untouched state (refused state party mode) := by
  cases mode <;> exact ⟨rfl, rfl, rfl⟩

theorem enqueueOrAcquire_untouched : Untouched state (enqueueOrAcquire width state party mode) := by
  unfold enqueueOrAcquire
  split <;> exact ⟨rfl, rfl, rfl⟩

theorem tryNext_untouched {attempt : Attempt} {cur : ℕ} :
    Untouched state (tryNext width state party attempt cur) := by
  have again (node : Signal) (mode : Mode) :
      Untouched state (enqueueOrAcquire width (state.setSignal party node) party mode) :=
    ⟨enqueueOrAcquire_untouched.pool, enqueueOrAcquire_untouched.queue,
      enqueueOrAcquire_untouched.request⟩
  have closed (mode : Mode) : Untouched state (refused state party mode) := refused_untouched
  unfold tryNext
  split
  · cases attempt with
    | tryAcquire | acquireSync | pollAcquire waker => exact ⟨rfl, rfl, rfl⟩
    | acquireSyncSlow => exact closed .wait
    | pollAcquireSlow waker => exact closed (.poll waker)
  · split
    · cases attempt with
      | tryAcquire | acquireSync | pollAcquire waker => exact ⟨rfl, rfl, rfl⟩
      | acquireSyncSlow => exact again _ _
      | pollAcquireSlow waker => exact again _ _
    · exact ⟨rfl, rfl, rfl⟩

theorem finishSync_untouched {value : SignalValue} :
    Untouched state (finishSync state party value) := by
  unfold finishSync
  split
  · exact acquired_untouched
  · exact release_untouched

theorem pollFinal_untouched {waker : Waker} {value : SignalValue} :
    Untouched state (pollFinal state party waker value) := by
  unfold pollFinal
  split
  · exact ⟨rfl, rfl, rfl⟩
  · split
    · exact ⟨release_untouched.pool, release_untouched.queue, release_untouched.request⟩
    · exact acquired_untouched

theorem forgetNext_untouched {n cur : ℕ} : Untouched state (forgetNext state party n cur) := by
  unfold forgetNext
  split <;> exact ⟨rfl, rfl, rfl⟩

theorem unlocked_untouched {back : Unlock ι γ} : Untouched state (unlocked state party back) := by
  cases back with
  | acquired mode => exact acquired_untouched
  | closed mode => exact refused_untouched
  | enqueued mode first =>
    cases mode with
    | wait => cases first <;> exact ⟨rfl, rfl, rfl⟩
    | poll waker => exact ⟨rfl, rfl, rfl⟩
  | drained chain after => exact signalNext_untouched
  | closing chain => exact signalNext_untouched
  | cancelFound granted headChanged =>
    unfold unlocked
    dsimp only
    split
    · exact release_untouched
    · split <;> exact ⟨rfl, rfl, rfl⟩
  | cancelMissing => exact ⟨rfl, rfl, rfl⟩

/-- The points from which a step touches neither the pool nor the queue. -/
def quietAt : Pc ι γ → Bool
  | .tryLoad _ | .signalTake _ _ _ _ | .signalPublish _ _ _ _ => true
  | .syncSpin | .syncSwap | .syncPark | .rearmRegister _ | .rearmLoad _ => true
  | .dropLoad | .cancelWait | .forgetLoad _ => true
  | _ => false

theorem advance_untouched (quiet : quietAt (state.pc party) = true)
    (stepped : advance width state party = some next) : Untouched state next := by
  cases source : state.pc party <;>
    simp only [quietAt, source, Bool.false_eq_true] at quiet <;>
    simp only [advance, source, Option.some.injEq] at stepped
  case syncPark =>
    unfold syncPark at stepped
    dsimp only at stepped
    split at stepped <;> cases stepped
    exact finishSync_untouched
  case cancelWait =>
    unfold cancelWait at stepped
    dsimp only at stepped
    split at stepped <;> cases stepped
    exact release_untouched
  all_goals subst stepped
  case tryLoad => exact tryNext_untouched
  case signalTake => exact ⟨rfl, rfl, rfl⟩
  case signalPublish =>
    exact ⟨signalNext_untouched.pool, signalNext_untouched.queue, signalNext_untouched.request⟩
  case syncSpin =>
    unfold syncSpin
    dsimp only
    split
    · exact finishSync_untouched
    · exact ⟨rfl, rfl, rfl⟩
  case syncSwap =>
    unfold syncSwap
    dsimp only
    split
    · exact ⟨finishSync_untouched.pool, finishSync_untouched.queue, finishSync_untouched.request⟩
    · exact ⟨rfl, rfl, rfl⟩
  case rearmRegister =>
    unfold rearmRegister
    dsimp only
    split <;> exact ⟨rfl, rfl, rfl⟩
  case rearmLoad =>
    unfold rearmLoad
    dsimp only
    split
    · exact pollFinal_untouched
    · exact ⟨rfl, rfl, rfl⟩
  case dropLoad =>
    unfold dropLoad
    split
    case h_2 | h_3 => exact release_untouched
    all_goals exact ⟨rfl, rfl, rfl⟩
  case forgetLoad => exact forgetNext_untouched

/-- No call touches the pool or the queue before its first step. -/
theorem begin_untouched {move : Move γ} (stepped : begin width state party move = some next) :
    next.pool = state.pool ∧ next.queue = state.queue := by
  cases move <;> simp only [begin, beginRequest] at stepped
  case advance => cases stepped
  case poll waker =>
    split at stepped <;> cases stepped
    unfold poll
    dsimp only
    split
    · exact ⟨rfl, rfl⟩
    · split
      · exact ⟨rfl, rfl⟩
      · exact ⟨pollFinal_untouched.pool, pollFinal_untouched.queue⟩
  case drop =>
    split at stepped <;> cases stepped
    unfold drop
    split <;> exact ⟨rfl, rfl⟩
  case split =>
    split at stepped
    · split at stepped <;> cases stepped <;> exact ⟨rfl, rfl⟩
    · cases stepped
  case addPermits | dropPermit | downgrade =>
    split at stepped <;> cases stepped
    exact ⟨release_untouched.pool, release_untouched.queue⟩
  all_goals
    split at stepped <;> cases stepped
    exact ⟨rfl, rfl⟩

end Untouched

/-! ### What a step writes -/

section Shared

variable (width : PointerWidth) (state : State ι γ) (party : ι)

/-- The pool word after the step of a program point. -/
def poolAfter : Pc ι γ → ℕ
  | .tryCas _ cur | .enqueueCas _ cur =>
    if state.pool = cur then takePermits cur (state.requested party) else state.pool
  | .releaseAdd n _ => addPermits width state.pool n
  | .drainCas _ cur => if state.pool = cur then takeAll cur else state.pool
  | .drainReturn _ available _ => addPermits width state.pool available
  | .enqueueFlag _ => setQueue state.pool
  | .unlock _ => if state.queue.entries.isEmpty then clearQueue width state.pool else state.pool
  | .closeFlag => setClosed state.pool
  | .forgetCas n cur => if state.pool = cur then takePermits cur (min (permits cur) n) else
    state.pool
  | _ => state.pool

/-- The queue after `lock(false)`. -/
def lockAfter (queue : WaitQueue ι) (party : ι) : WaitQueue ι :=
  match queue.lock party false with
  | .acquired locked => locked
  | .spin | .absent => queue

/-- The queue after the step of a program point. -/
def queueAfter : Pc ι γ → WaitQueue ι
  | .drainLock _ | .cancelLock | .closeLock => lockAfter state.queue party
  | .enqueueLock _ => ⟨some party, state.queue.entries⟩
  | .drainServe _ available =>
    state.queue.leave (serve state.queue.entries state.signal available).rest
  | .enqueuePush _ => state.queue.push party
  | .unlock _ => if state.queue.entries.isEmpty then state.queue else state.queue.unlock
  | .unlockStore _ => state.queue.unlock
  | .cancelRemove => state.queue.remove party
  | .closePop => state.queue.leave []
  | _ => state.queue

/-- The step of a program point has written what it writes there. -/
structure Shared (next : State ι γ) (pc : Pc ι γ) : Prop where
  pool : next.pool = poolAfter width state party pc
  queue : next.queue = queueAfter state party pc
  request : next.request = state.request

end Shared

section Steps

variable {width : PointerWidth} {state next : State ι γ} {party : ι} {after : After γ} {mode : Mode}

theorem lockAfter_entries (queue : WaitQueue ι) (party : ι) :
    (lockAfter queue party).entries = queue.entries := by
  unfold lockAfter
  split
  · rename_i result
    rw [(WaitQueue.lock_acquired result).2.1]
  · rfl
  · rfl

/-- What the end of a step leaves as it was. -/
theorem Shared.ends (before : State ι γ) {pc : Pc ι γ} (ends : Untouched before next)
    (pool : before.pool = poolAfter width state party pc)
    (queue : before.queue = queueAfter state party pc)
    (request : before.request = state.request) : Shared width state party next pc :=
  ⟨ends.pool.trans pool, ends.queue.trans queue, ends.request.trans request⟩

theorem tryCas_shared {attempt : Attempt} {cur : ℕ} :
    Shared width state party (tryCas width state party attempt cur) (.tryCas attempt cur) := by
  unfold tryCas
  split
  · rename_i same
    refine .ends { state with pool := takePermits cur (state.requested party) } ?_
      (if_pos same).symm rfl rfl
    unfold tryTaken
    cases attempt <;> exact acquired_untouched
  · rename_i changed
    exact .ends state tryNext_untouched (if_neg changed).symm rfl rfl

theorem releaseAdd_shared {n : ℕ} :
    Shared width state party (releaseAdd width state party n after) (.releaseAdd n after) := by
  refine .ends { state with pool := addPermits width state.pool n } ?_ rfl rfl rfl
  unfold releaseAdd
  dsimp only
  split
  · split
    · exact ⟨rfl, rfl, rfl⟩
    · exact finish_untouched
  · cases after <;> exact ⟨rfl, rfl, rfl⟩

/-- The three calls of `lock(false)`. -/
theorem drainLock_shared (stepped : drainLock state party after = some next) :
    Shared width state party next (.drainLock after) := by
  unfold drainLock at stepped
  split at stepped <;> cases stepped <;> rename_i result
  · exact .ends state finish_untouched rfl (by simp [queueAfter, lockAfter, result]) rfl
  · exact ⟨rfl, by simp [queueAfter, lockAfter, result], rfl⟩

theorem cancelLock_shared (stepped : cancelLock state party = some next) :
    Shared width state party next .cancelLock := by
  unfold cancelLock at stepped
  split at stepped <;> cases stepped <;> rename_i result <;>
    exact ⟨rfl, by simp [queueAfter, lockAfter, result], rfl⟩

theorem closeLock_shared (stepped : closeLock state party = some next) :
    Shared width state party next .closeLock := by
  unfold closeLock at stepped
  split at stepped <;> cases stepped <;> rename_i result <;>
    exact ⟨rfl, by simp [queueAfter, lockAfter, result], rfl⟩

theorem enqueueLock_shared (stepped : enqueueLock state party mode = some next) :
    Shared width state party next (.enqueueLock mode) := by
  unfold enqueueLock at stepped
  split at stepped <;> cases stepped
  rename_i locked result
  exact ⟨rfl, (WaitQueue.lock_acquired result).2.1, rfl⟩

theorem unlock_shared {back : Unlock ι γ} :
    Shared width state party (unlock width state party back) (.unlock back) := by
  unfold unlock
  split
  · rename_i empty
    exact ⟨(if_pos empty).symm, (if_pos empty).symm, rfl⟩
  · rename_i linked
    exact .ends { state with queue := state.queue.unlock } unlocked_untouched (if_neg linked).symm
      (if_neg linked).symm rfl

theorem cancelRemove_shared :
    Shared width state party (cancelRemove state party) .cancelRemove := by
  unfold cancelRemove
  dsimp only
  split
  · exact ⟨rfl, rfl, rfl⟩
  · rename_i missing
    refine ⟨rfl, ?_, rfl⟩
    simp [queueAfter, WaitQueue.remove, List.erase_of_not_mem missing]

/-- **Every step inside a call writes what its program point says.** -/
theorem advance_shared (stepped : advance width state party = some next) :
    Shared width state party next (state.pc party) := by
  by_cases quiet : quietAt (state.pc party) = true
  · have ends := advance_untouched quiet stepped
    refine .ends state ends ?_ ?_ rfl
    all_goals cases source : state.pc party <;> simp [source, quietAt] at quiet <;> rfl
  cases source : state.pc party <;>
    simp only [advance, source, Option.some.injEq, reduceCtorEq] at stepped
  case drainLock => exact drainLock_shared stepped
  case cancelLock => exact cancelLock_shared stepped
  case closeLock => exact closeLock_shared stepped
  case enqueueLock => exact enqueueLock_shared stepped
  case syncPark | cancelWait => simp [source, quietAt] at quiet
  all_goals subst stepped
  case tryCas => exact tryCas_shared
  case releaseAdd => exact releaseAdd_shared
  case unlock => exact unlock_shared
  case unlockStore =>
    exact .ends { state with queue := state.queue.unlock } unlocked_untouched rfl rfl rfl
  case cancelRemove => exact cancelRemove_shared
  case drainLoad | drainServe | drainReturn | enqueueFlag | enqueuePush | closePop =>
    exact ⟨rfl, rfl, rfl⟩
  case drainCas after cur =>
    unfold drainCas
    split
    · rename_i same
      exact ⟨(if_pos same).symm, rfl, rfl⟩
    · rename_i changed
      exact ⟨(if_neg changed).symm, rfl, rfl⟩
  case enqueueCas mode cur =>
    unfold enqueueCas
    split
    · rename_i same
      exact ⟨(if_pos same).symm, rfl, rfl⟩
    · rename_i changed
      exact ⟨(if_neg changed).symm, rfl, rfl⟩
  case closeFlag =>
    unfold closeFlag
    dsimp only
    split
    · exact ⟨rfl, rfl, rfl⟩
    · split <;> exact ⟨rfl, rfl, rfl⟩
  case forgetCas n cur =>
    unfold forgetCas
    split
    · rename_i same
      exact ⟨(if_pos same).symm, rfl, rfl⟩
    · rename_i changed
      exact .ends state forgetNext_untouched (if_neg changed).symm rfl rfl
  all_goals simp [source, quietAt] at quiet

/-! ### How the guarded points are entered -/

/-- The points of the `close` call that has set `CLOSED`, after its `fetch_or`. -/
@[simp] def closingAt : Pc ι γ → Bool
  | .closeLock | .closePop => true
  | .unlock (.closing _) | .unlockStore (.closing _) => true
  | .signalTake _ _ true _ | .signalPublish _ _ true _ => true
  | _ => false

/-- The points that are only entered with some knowledge of the shared words. -/
@[simp] def entersAt : Pc ι γ → Bool
  | .tryCas _ _ | .enqueueLock _ | .enqueueFlag _ | .enqueueCas _ _ | .enqueuePush _ => true
  | pc => closingAt pc

/-- **How a party enters such a point**, with what it has read. -/
inductive Enters (width : PointerWidth) (state next : State ι γ) (party : ι) : Prop
  | tries (attempt : Attempt) (target : next.pc party = .tryCas attempt state.pool)
      (opened : isClosed state.pool = false) (vacant : hasQueue state.pool = false)
      (enough : state.requested party ≤ permits state.pool)
  | admitted (mode : Mode) (target : next.pc party = .enqueueLock mode)
      (small : state.requested party ≤ maxPermits width)
      (armed : (next.signal party).aux = state.requested party)
  | locks (mode : Mode) (source : state.pc party = .enqueueLock mode)
    (target : next.pc party = .enqueueFlag mode)
  | flags (mode : Mode) (source : state.pc party = .enqueueFlag mode)
      (target : next.pc party = enqueueNext state party mode (setQueue state.pool))
  | retries (mode : Mode) (cur : ℕ) (source : state.pc party = .enqueueCas mode cur)
      (target : next.pc party = enqueueNext state party mode state.pool)
  | closes (source : state.pc party = .closeFlag) (opened : isClosed state.pool = false)
      (target : next.pc party = .closeLock)
  | closing (source : closingAt (state.pc party) = true) (target : closingAt (next.pc party) = true)

theorem finish_leaves : entersAt ((finish state party after).pc party) = false := by
  cases after <;> simp [finish, entersAt, closingAt]

theorem release_leaves {n : ℕ} : entersAt ((release state party n after).pc party) = false := by
  unfold release
  split
  · exact finish_leaves
  · simp [entersAt, closingAt]

theorem signalNext_leaves {chain : List ι} :
    entersAt ((signalNext state party false after chain).pc party) = false := by
  cases chain with
  | nil => exact finish_leaves
  | cons node rest => simp [signalNext, entersAt, closingAt]

theorem acquired_leaves : entersAt ((acquired state party mode).pc party) = false := by
  cases mode <;> simp [acquired, entersAt, closingAt]

theorem refused_leaves : entersAt ((refused state party mode).pc party) = false := by
  cases mode <;> simp [refused, entersAt, closingAt]

theorem finishSync_leaves {value : SignalValue} :
    entersAt ((finishSync state party value).pc party) = false := by
  unfold finishSync
  split
  · exact acquired_leaves
  · exact release_leaves

theorem pollFinal_leaves {waker : Waker} {value : SignalValue} :
    entersAt ((pollFinal state party waker value).pc party) = false := by
  unfold pollFinal
  split
  · simp [entersAt, closingAt]
  · split
    · exact release_leaves
    · exact acquired_leaves

theorem forgetNext_leaves {n cur : ℕ} : entersAt ((forgetNext state party n cur).pc party) =
    false := by
  unfold forgetNext
  split <;> simp [entersAt, closingAt]

theorem unlocked_leaves {back : Unlock ι γ} (other : ∀ chain, back ≠ .closing chain) :
    entersAt ((unlocked state party back).pc party) = false := by
  cases back with
  | acquired mode => exact acquired_leaves
  | closed mode => exact refused_leaves
  | enqueued mode first =>
    cases mode with
    | wait => cases first <;> simp [unlocked, entersAt, closingAt]
    | poll waker => simp [unlocked, entersAt, closingAt]
  | drained chain after => exact signalNext_leaves
  | closing chain => exact absurd rfl (other chain)
  | cancelFound granted headChanged =>
    unfold unlocked
    dsimp only
    split
    · exact release_leaves
    · split <;> simp [entersAt, closingAt]
  | cancelMissing => simp [unlocked, entersAt, closingAt]

/-- The closer goes on to signal what it has popped. -/
theorem signalNext_closing (closer : closingAt (state.pc party) = true) {before : State ι γ}
    {chain : List ι}
    (enters : entersAt ((signalNext before party true after chain).pc party) = true) :
    Enters width state (signalNext before party true after chain) party := by
  cases chain with
  | nil =>
    rw [show signalNext before party true after [] = finish before party after from rfl,
      finish_leaves] at enters
    cases enters
  | cons node rest => exact .closing closer (by simp [signalNext, closingAt])

theorem unlocked_enters {back : Unlock ι γ} {before : State ι γ}
    (source : state.pc party = .unlock back ∨ state.pc party = .unlockStore back)
    (enters : entersAt ((unlocked before party back).pc party) = true) :
    Enters width state (unlocked before party back) party := by
  by_cases closing : ∃ chain, back = .closing chain
  · obtain ⟨chain, rfl⟩ := closing
    exact signalNext_closing (by rcases source with source | source <;> rw [source] <;> rfl) enters
  · rw [unlocked_leaves (not_exists.mp closing)] at enters
    cases enters

theorem enqueueOrAcquire_enters {before : State ι γ} (same : before.request = state.request)
    (armed : (before.signal party).aux = state.requested party)
    (enters : entersAt ((enqueueOrAcquire width before party mode).pc party) = true) :
    Enters width state (enqueueOrAcquire width before party mode) party := by
  revert enters
  unfold enqueueOrAcquire
  split
  · rename_i small
    intro _
    exact .admitted mode (Function.update_self ..) (by simpa [State.requested, same] using small)
      armed
  · intro enters
    cases mode <;> simp [entersAt, closingAt] at enters

/-- `try_acquire` goes on to its CAS with a word that has what it needs, or to the queue. -/
theorem tryNext_enters {attempt : Attempt}
    (enters : entersAt ((tryNext width state party attempt state.pool).pc party) = true) :
    Enters width state (tryNext width state party attempt state.pool) party := by
  revert enters
  unfold tryNext
  split
  · intro enters
    cases attempt <;> simp [tryFailed, refused, entersAt, closingAt] at enters
  · rename_i opened
    split
    · cases attempt with
      | tryAcquire | acquireSync | pollAcquire waker =>
        intro enters
        simp [tryFailed, entersAt, closingAt] at enters
      | acquireSyncSlow | pollAcquireSlow waker => exact enqueueOrAcquire_enters rfl (by simp)
    · rename_i free
      simp only [Bool.or_eq_true, decide_eq_true_eq, not_or, Bool.not_eq_true, Nat.not_lt] at free
      intro _
      exact .tries attempt (Function.update_self ..) (Bool.eq_false_iff.mpr opened) free.1 free.2

/-- **How a step inside a call enters a guarded point.** -/
theorem advance_enters (stepped : advance width state party = some next)
    (enters : entersAt (next.pc party) = true) : Enters width state next party := by
  have leaves {left : State ι γ} (absent : entersAt (left.pc party) = false) (same : left = next) :
      Enters width state next party := by
    rw [← same, absent] at enters
    cases enters
  cases source : state.pc party <;>
    simp only [advance, source, Option.some.injEq, reduceCtorEq] at stepped
  case tryLoad =>
    subst stepped
    exact tryNext_enters enters
  case tryCas attempt cur =>
    subst stepped
    revert enters
    unfold tryCas
    split
    · intro enters
      cases attempt <;> simp [tryTaken, acquired, entersAt, closingAt] at enters
    · exact tryNext_enters
  case releaseAdd n after =>
    refine leaves ?_ stepped
    unfold releaseAdd
    dsimp only
    split
    · split
      · simp [entersAt, closingAt]
      · exact finish_leaves
    · cases after <;> simp [releasePanic, entersAt, closingAt]
  case drainLock =>
    unfold drainLock at stepped
    split at stepped <;> cases stepped
    · exact leaves finish_leaves rfl
    · exact leaves (by simp [entersAt, closingAt]) rfl
  case cancelLock =>
    unfold cancelLock at stepped
    split at stepped <;> cases stepped <;> exact leaves (by simp [entersAt, closingAt]) rfl
  case closeLock =>
    unfold closeLock at stepped
    split at stepped <;> cases stepped
    · exact leaves (by simp [entersAt, closingAt]) rfl
    · exact .closing (by rw [source]; rfl) (by simp [closingAt])
  case enqueueLock mode =>
    unfold enqueueLock at stepped
    split at stepped <;> cases stepped
    exact .locks mode source (Function.update_self ..)
  case syncPark =>
    unfold syncPark at stepped
    dsimp only at stepped
    split at stepped <;> cases stepped
    exact leaves finishSync_leaves rfl
  case cancelWait =>
    unfold cancelWait at stepped
    dsimp only at stepped
    split at stepped <;> cases stepped
    exact leaves release_leaves rfl
  case drainLoad =>
    refine leaves ?_ stepped
    simp only [State.goto, Function.update_self, drainTake]
    split <;> rfl
  case drainCas =>
    refine leaves ?_ stepped
    unfold drainCas drainTake
    split
    · simp [entersAt, closingAt]
    · simp only [State.goto, Function.update_self]
      split <;> rfl
  case drainServe =>
    refine leaves ?_ stepped
    simp only [drainServe, State.goto, Function.update_self]
    split <;> rfl
  case drainReturn => exact leaves (by simp [drainReturn, entersAt, closingAt]) stepped
  case enqueueFlag mode =>
    subst stepped
    exact .flags mode source (Function.update_self ..)
  case enqueueCas mode cur =>
    subst stepped
    revert enters
    unfold enqueueCas
    split
    · intro enters
      simp [entersAt, closingAt] at enters
    · intro _
      exact .retries mode cur source (Function.update_self ..)
  case enqueuePush => exact leaves (by simp [enqueuePush, entersAt, closingAt]) stepped
  case unlock back =>
    subst stepped
    revert enters
    unfold unlock
    split
    · intro enters
      cases back <;> simp [entersAt, closingAt] at enters
      exact .closing (by rw [source]; rfl) (by simp [closingAt])
    · exact unlocked_enters (.inl source)
  case unlockStore =>
    subst stepped
    exact unlocked_enters (.inr source) enters
  case signalTake node rest closed after =>
    cases closed with
    | false => exact leaves (by simp [signalTake, entersAt, closingAt]) stepped
    | true =>
      subst stepped
      exact .closing (by rw [source]; rfl) (by simp [signalTake, closingAt])
  case signalPublish node rest closed after =>
    cases closed with
    | false => exact leaves signalNext_leaves stepped
    | true =>
      subst stepped
      exact signalNext_closing (by rw [source]; rfl) enters
  case syncSpin =>
    refine leaves ?_ stepped
    unfold syncSpin
    dsimp only
    split
    · exact finishSync_leaves
    · simp [entersAt, closingAt]
  case syncSwap =>
    refine leaves ?_ stepped
    unfold syncSwap
    dsimp only
    split
    · exact finishSync_leaves
    · simp [entersAt, closingAt]
  case rearmRegister =>
    refine leaves ?_ stepped
    unfold rearmRegister
    dsimp only
    split <;> simp [entersAt, closingAt]
  case rearmLoad =>
    refine leaves ?_ stepped
    unfold rearmLoad
    dsimp only
    split
    · exact pollFinal_leaves
    · simp [entersAt, closingAt]
  case dropLoad =>
    refine leaves ?_ stepped
    unfold dropLoad
    split
    case h_2 | h_3 => exact release_leaves
    all_goals simp [entersAt, closingAt]
  case cancelRemove =>
    refine leaves ?_ stepped
    unfold cancelRemove
    dsimp only
    split <;> simp [entersAt, closingAt]
  case closeFlag =>
    subst stepped
    revert enters
    unfold closeFlag
    dsimp only
    split
    · intro enters
      simp [entersAt, closingAt] at enters
    · rename_i opened
      split
      · intro _
        exact .closes source (Bool.eq_false_iff.mpr opened) (Function.update_self ..)
      · intro enters
        simp [entersAt, closingAt] at enters
  case closePop =>
    subst stepped
    exact .closing (by rw [source]; rfl) (by simp [closePop, closingAt])
  case forgetLoad => exact leaves forgetNext_leaves stepped
  case forgetCas =>
    refine leaves ?_ stepped
    unfold forgetCas
    split
    · simp [entersAt, closingAt]
    · exact forgetNext_leaves

/-- A call is begun by a party that is in no other. -/
theorem begin_rests {move : Move γ} (stepped : begin width state party move = some next) :
    state.pc party = .idle ∨ state.pc party = .future := by
  cases move <;> simp only [begin, beginRequest] at stepped
  case advance => cases stepped
  case poll | drop =>
    split at stepped <;> cases stepped
    rename_i source
    exact .inr source
  case close =>
    split at stepped <;> cases stepped
    rename_i source
    exact .inl source
  all_goals
    split at stepped
    · rename_i source
      exact .inl source.1
    · cases stepped

/-- No call begins at a guarded point. -/
theorem begin_leaves {move : Move γ} (stepped : begin width state party move = some next) :
    entersAt (next.pc party) = false := by
  cases move <;> simp only [begin, beginRequest] at stepped
  case advance => cases stepped
  case poll waker =>
    split at stepped <;> cases stepped
    unfold poll
    dsimp only
    split
    · simp [entersAt, closingAt]
    · split
      · simp [entersAt, closingAt]
      · exact pollFinal_leaves
  case drop =>
    split at stepped <;> cases stepped
    unfold drop
    split <;> simp [entersAt, closingAt]
  case addPermits | dropPermit | downgrade =>
    split at stepped <;> cases stepped
    exact release_leaves
  case split =>
    split at stepped
    · rename_i source
      split at stepped <;> cases stepped <;> simp [source.1, entersAt, closingAt]
    · cases stepped
  case merge | forget =>
    split at stepped <;> cases stepped
    rename_i source
    simp [source.1, entersAt, closingAt]
  all_goals
    split at stepped <;> cases stepped
    simp [entersAt, closingAt]

end Steps

end Xutex.Semaphore
