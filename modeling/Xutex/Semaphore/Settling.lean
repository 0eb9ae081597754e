/-
**The semaphore settles.**

The CAS loops of the semaphore (`try_acquire`, `enqueue_or_acquire`, `drain`, `forget_permits`) are
retried only after somebody else has changed the pool, and a call changes it a few times only: an
acquisition takes its permits or sets the flag, a release adds and drains once. A drain signals the
nodes it pops one by one, so a linked node costs two steps.

* `Reaches` — where a function of the model leaves its party, and what is left to do from there.
* `acquire_settles` — **without new calls the semaphore comes to a standstill**, from every state
  and in every order of the steps. The calls need not have returned there: a thread may be in
  `park`, the drop of a future may wait for a signal that nobody sends (`cancelWait`), and from a
  state in which nobody lets go of the tag-lock the loops that wait for it spin on.
-/

import Xutex.Core.Settling
import Xutex.Semaphore.Standstill

set_option linter.unusedSectionVars false

namespace Xutex.Semaphore

open Concurrency Sleeping

variable {ι γ : Type} [DecidableEq ι] [DecidableEq γ]

/-! ### The rank -/

/-- What is left of the call after an unlock. -/
def Unlock.work : Unlock ι γ → ℕ
  | .acquired _ | .closed _ | .enqueued (.poll _) _ => 0
  | .enqueued .wait _ => 11
  | .drained chain _ | .closing chain => 2 * chain.length
  | .cancelFound _ _ => 8
  | .cancelMissing => 9

/-- The attempt is the one of the slow path. -/
def Attempt.work : Attempt → ℕ
  | .tryAcquire | .acquireSync | .pollAcquire _ => 22
  | .acquireSyncSlow | .pollAcquireSlow _ => 20

/-- What is left of the call, retries apart. -/
def workAt : Pc ι γ → ℕ
  | .idle | .future => 0
  | .forgetCas _ _ => 1
  | .forgetLoad _ => 2
  | .closePop => 3
  | .closeLock | .drainServe _ _ => 4
  | .closeFlag | .drainCas _ _ => 5
  | .drainLoad _ => 6
  | .drainLock _ => 7
  | .releaseAdd _ _ => 8
  | .syncPark | .cancelWait | .rearmLoad _ => 9
  | .syncSwap | .rearmRegister _ => 10
  | .syncSpin => 11
  | .cancelRemove => 12
  | .cancelLock => 13
  | .dropLoad => 14
  | .enqueuePush _ => 16
  | .enqueueCas _ _ => 17
  | .enqueueFlag _ => 18
  | .enqueueLock _ => 19
  | .tryCas attempt _ => attempt.work
  | .tryLoad attempt => attempt.work + 1
  | .drainReturn _ _ chain => 2 * chain.length + 3
  | .unlock back => back.work + 2
  | .unlockStore back => back.work + 1
  | .signalTake _ rest _ _ => 2 * rest.length + 2
  | .signalPublish _ rest _ _ => 2 * rest.length + 1

/-- The CAS of the party is going to fail. -/
def retriesAt (pool : ℕ) : Pc ι γ → ℕ
  | .tryCas _ cur | .drainCas _ cur | .enqueueCas _ cur | .forgetCas _ cur =>
    if pool = cur then 0 else 1
  | _ => 0

/-- **The pace of the semaphore.** -/
def pace (ι γ : Type) [DecidableEq ι] [DecidableEq γ] (width : PointerWidth) (n : ℕ) :
    Pace (sleeping ι γ width n) where
  cost state := 2 * state.queue.entries.length
  work := workAt
  retries state := retriesAt state.pool

/-! ### Where the functions of the model lead -/

section Reaches

variable {width : PointerWidth} {state before next : State ι γ} {party : ι} {after : After γ}
  {mode : Mode} {bound : ℕ}

/-- The party gets to a point from which at most `bound` is left to do, and nothing is linked or
popped. -/
def Reaches (before next : State ι γ) (party : ι) (bound : ℕ) : Prop :=
  ∃ pc, next.pc = Function.update before.pc party pc ∧ next.queue.entries = before.queue.entries ∧
    workAt pc ≤ bound

theorem Reaches.mono {more : ℕ} (reaches : Reaches before next party bound) (less : bound ≤ more) :
    Reaches before next party more := by
  obtain ⟨pc, moved, entries, fits⟩ := reaches
  exact ⟨pc, moved, entries, fits.trans less⟩

theorem finish_reaches : Reaches before (finish before party after) party 0 := by
  cases after <;> exact ⟨_, rfl, rfl, le_rfl⟩

theorem release_reaches {n : ℕ} : Reaches before (release before party n after) party 8 := by
  unfold release
  split
  · exact finish_reaches.mono (Nat.zero_le _)
  · exact ⟨_, rfl, rfl, le_rfl⟩

theorem releasePanic_reaches : Reaches before (releasePanic before party after) party 0 := by
  cases after <;> exact ⟨_, rfl, rfl, le_rfl⟩

theorem acquired_reaches : Reaches before (acquired before party mode) party 0 := by
  cases mode <;> exact ⟨_, rfl, rfl, le_rfl⟩

theorem refused_reaches : Reaches before (refused before party mode) party 0 := by
  cases mode <;> exact ⟨_, rfl, rfl, le_rfl⟩

theorem signalNext_reaches {closed : Bool} {chain : List ι} :
    Reaches before (signalNext before party closed after chain) party (2 * chain.length) := by
  cases chain with
  | nil => exact finish_reaches
  | cons node rest => exact ⟨_, rfl, rfl, le_rfl⟩

theorem enqueueOrAcquire_reaches (same : state.pc = before.pc)
    (entries : state.queue.entries = before.queue.entries) :
    Reaches before (enqueueOrAcquire width state party mode) party 19 := by
  unfold enqueueOrAcquire
  split
  · exact ⟨_, by rw [← same]; rfl, entries, le_rfl⟩
  · cases mode <;> exact ⟨_, by rw [← same]; rfl, entries, Nat.zero_le _⟩

theorem tryFailed_reaches {attempt : Attempt} {error : TryAcquireError} :
    Reaches before (tryFailed width before party attempt error) party (attempt.work - 1) := by
  cases attempt <;> cases error
  case acquireSyncSlow.closed | pollAcquireSlow.closed => exact refused_reaches.mono (Nat.zero_le _)
  case acquireSyncSlow.noPermits | pollAcquireSlow.noPermits =>
    exact enqueueOrAcquire_reaches rfl rfl
  all_goals exact ⟨_, rfl, rfl, by simp [workAt, Attempt.work]⟩

theorem tryTaken_reaches {attempt : Attempt} :
    Reaches before (tryTaken before party attempt) party 0 := by
  cases attempt <;> exact acquired_reaches

theorem finishSync_reaches {value : SignalValue} :
    Reaches before (finishSync before party value) party 8 := by
  unfold finishSync
  split
  · exact acquired_reaches.mono (Nat.zero_le _)
  · exact release_reaches

theorem pollFinal_reaches {waker : Waker} {value : SignalValue} :
    Reaches before (pollFinal before party waker value) party 8 := by
  unfold pollFinal
  split
  · exact ⟨_, rfl, rfl, Nat.zero_le _⟩
  · split
    · exact release_reaches
    · exact acquired_reaches.mono (Nat.zero_le _)

theorem unlocked_reaches {back : Unlock ι γ} :
    Reaches before (unlocked before party back) party back.work := by
  cases back with
  | acquired | closed => first | exact acquired_reaches | exact refused_reaches
  | enqueued mode first => cases mode <;> cases first <;>
    exact ⟨_, rfl, rfl, by simp [workAt, Unlock.work]⟩
  | drained | closing => exact signalNext_reaches
  | cancelFound granted headChanged =>
    simp only [unlocked]
    split
    · exact release_reaches
    · split <;> exact ⟨_, rfl, rfl, by simp [workAt, Unlock.work]⟩
  | cancelMissing => exact ⟨_, rfl, rfl, le_rfl⟩

end Reaches

/-! ### Every step -/

section Steps

variable [Fintype ι] {width : PointerWidth} {n : ℕ} {state before next : State ι γ} {party : ι}

/-- A step of the semaphore. -/
abbrev Paced (width : PointerWidth) (n : ℕ) (state next : State ι γ) (party : ι) : Prop :=
  (pace ι γ width n).Step (halting ι γ width n) state next party

theorem paced_of_work {here pc : Pc ι γ} (source : state.pc party = here)
    (moved : next.pc = Function.update state.pc party pc)
    (less : 2 * next.queue.entries.length + workAt pc < 2 * state.queue.entries.length + workAt
      here) :
    Paced width n state next party :=
  Pace.Step.work source moved less

theorem paced_of_reaches {here : Pc ι γ} {bound : ℕ} (source : state.pc party = here)
    (reaches : Reaches before next party bound) (same : before.pc = state.pc)
    (entries : before.queue.entries = state.queue.entries) (less : bound < workAt here) :
    Paced width n state next party := by
  obtain ⟨pc, moved, kept, fits⟩ := reaches
  rw [same] at moved
  refine paced_of_work source moved ?_
  rw [kept, entries]
  omega

theorem paced_of_retry {here pc : Pc ι γ} (source : state.pc party = here)
    (same : workAt pc = workAt here) (less : retriesAt state.pool pc < retriesAt state.pool here) :
    Paced width n state (state.goto party pc) party :=
  Pace.Step.retry source rfl rfl same rfl less

/-- The loop of `try_acquire` with a word it has read. -/
theorem tryNext_paced {attempt : Attempt} {here : Pc ι γ} (source : state.pc party = here)
    (tries : here = .tryLoad attempt ∨ ∃ cur, here = .tryCas attempt cur ∧ state.pool ≠ cur) :
    Paced width n state (tryNext width state party attempt state.pool) party := by
  have work : attempt.work ≤ workAt here := by
    rcases tries with rfl | ⟨cur, rfl, -⟩
    · exact Nat.le_succ _
    · exact le_rfl
  have failed {error : TryAcquireError} :
      Paced width n state (tryFailed width state party attempt error) party := by
    refine paced_of_reaches source tryFailed_reaches rfl rfl (lt_of_lt_of_le ?_ work)
    cases attempt <;> simp [Attempt.work]
  unfold tryNext
  split
  · exact failed
  · split
    · exact failed
    · rcases tries with rfl | ⟨cur, rfl, stale⟩
      · exact paced_of_work source rfl (by simp [workAt])
      · exact paced_of_retry source rfl (by simp [retriesAt, stale])

/-- The loop of `enqueue_or_acquire` with a word it has read. -/
theorem enqueueNext_paced {mode : Mode} {cur : ℕ} (source : state.pc party = .enqueueCas mode cur)
    (stale : state.pool ≠ cur) :
    Paced width n state (state.goto party (enqueueNext state party mode state.pool)) party := by
  unfold enqueueNext
  split
  · exact paced_of_work source rfl (by simp [workAt, Unlock.work])
  · split
    · exact paced_of_retry source rfl (by simp [retriesAt, stale])
    · exact paced_of_work source rfl (by simp [workAt])

theorem enqueueNext_work (state : State ι γ) (party : ι) (mode : Mode) (cur : ℕ) :
    workAt (enqueueNext state party mode cur) ≤ 17 := by
  unfold enqueueNext
  split
  · simp [workAt, Unlock.work]
  · split <;> simp [workAt]

/-- The steps that can be refused. -/
theorem waits_paced (stops : haltAt (state.pc party) ≠ .goes)
    (stepped : advance width state party = some next) : Paced width n state next party := by
  cases source : state.pc party <;> rw [source] at stops <;>
    simp only [advance, source, Option.some.injEq, reduceCtorEq] at stepped
  case drainLock after =>
    unfold drainLock at stepped
    split at stepped <;> cases stepped
    · exact paced_of_reaches source finish_reaches rfl rfl (by simp [workAt])
    · rename_i result
      exact paced_of_work source rfl (by simp [WaitQueue.lock_entries result, workAt])
  case enqueueLock mode =>
    unfold enqueueLock at stepped
    split at stepped <;> cases stepped
    rename_i result
    exact paced_of_work source rfl (by simp [WaitQueue.lock_entries result, workAt])
  case cancelLock =>
    unfold cancelLock at stepped
    split at stepped <;> cases stepped
    · exact paced_of_work source rfl (by simp [workAt])
    · rename_i result
      exact paced_of_work source rfl (by simp [WaitQueue.lock_entries result, workAt])
  case closeLock =>
    unfold closeLock at stepped
    split at stepped <;> cases stepped
    · exact paced_of_work source rfl (by simp [workAt])
    · rename_i result
      exact paced_of_work source rfl (by simp [WaitQueue.lock_entries result, workAt])
  case syncPark =>
    simp only [syncPark] at stepped
    split at stepped <;> cases stepped
    exact paced_of_reaches source finishSync_reaches rfl rfl (by simp [workAt])
  case cancelWait =>
    simp only [cancelWait] at stepped
    split at stepped <;> cases stepped
    exact paced_of_reaches source release_reaches rfl rfl (by simp [workAt])
  all_goals exact absurd rfl stops

/-- **Every step inside a call does a piece of work or ends a retry.** -/
theorem advance_paced (stepped : advance width state party = some next) :
    Paced width n state next party := by
  by_cases goes : haltAt (state.pc party) = .goes
  swap
  · exact waits_paced goes stepped
  cases source : state.pc party <;> rw [source] at goes <;>
    simp only [advance, source, Option.some.injEq, reduceCtorEq] at stepped
  case drainLock | enqueueLock | cancelLock | closeLock | syncPark | cancelWait => cases goes
  all_goals subst stepped
  case tryLoad attempt => exact tryNext_paced source (.inl rfl)
  case tryCas attempt cur =>
    unfold tryCas
    split
    · refine paced_of_reaches source tryTaken_reaches rfl rfl ?_
      cases attempt <;> simp [workAt, Attempt.work]
    · rename_i stale
      exact tryNext_paced source (.inr ⟨cur, rfl, stale⟩)
  case releaseAdd m after =>
    simp only [releaseAdd]
    split
    · split
      · exact paced_of_work source rfl (by simp [workAt])
      · exact paced_of_reaches source finish_reaches rfl rfl (by simp [workAt])
    · exact paced_of_reaches source releasePanic_reaches rfl rfl (by simp [workAt])
  case drainLoad after =>
    unfold drainTake
    split <;> exact paced_of_work source rfl (by simp [workAt])
  case drainCas after cur =>
    unfold drainCas
    split
    · exact paced_of_work source rfl (by simp [workAt])
    · rename_i stale
      unfold drainTake
      split
      · exact paced_of_work source rfl (by simp [workAt])
      · exact paced_of_retry source rfl (by simp [retriesAt, stale])
  case drainServe after available =>
    have parts := congrArg List.length (serve_entries state.queue.entries state.signal available)
    rw [List.length_append] at parts
    simp only [drainServe]
    split
    all_goals
      refine paced_of_work source rfl ?_
      simp only [State.goto, WaitQueue.leave_entries, workAt, Unlock.work]
      omega
  case drainReturn after available chain =>
    exact paced_of_work source rfl (by simp [drainReturn, workAt, Unlock.work])
  case enqueueFlag mode =>
    refine paced_of_work source rfl ?_
    have fits := enqueueNext_work state party mode (setQueue state.pool)
    show 2 * state.queue.entries.length + workAt
      (enqueueNext state party mode (setQueue state.pool)) < 2 * state.queue.entries.length + 18
    omega
  case enqueueCas mode cur =>
    unfold enqueueCas
    split
    · exact paced_of_work source rfl (by simp [workAt, Unlock.work])
    · rename_i stale
      exact enqueueNext_paced source stale
  case enqueuePush mode =>
    refine paced_of_work source rfl ?_
    cases mode <;> simp [enqueuePush, workAt, Unlock.work] <;> omega
  case unlock back =>
    unfold unlock
    split
    · exact paced_of_work source rfl (by simp [workAt])
    · exact paced_of_reaches source unlocked_reaches rfl rfl (by simp [workAt])
  case unlockStore back => exact paced_of_reaches source unlocked_reaches rfl rfl (by simp [workAt])
  case signalPublish node rest closed after =>
    exact paced_of_reaches source signalNext_reaches rfl rfl (by simp [workAt])
  case syncSpin =>
    simp only [syncSpin]
    split
    · exact paced_of_reaches source finishSync_reaches rfl rfl (by simp [workAt])
    · exact paced_of_work source rfl (by simp [workAt])
  case syncSwap =>
    simp only [syncSwap]
    split
    · exact paced_of_reaches source finishSync_reaches rfl rfl (by simp [workAt])
    · exact paced_of_work source rfl (by simp [workAt])
  case rearmRegister waker =>
    simp only [rearmRegister]
    split <;> exact paced_of_work source rfl (by simp [workAt])
  case rearmLoad waker =>
    simp only [rearmLoad]
    split
    · exact paced_of_reaches source pollFinal_reaches rfl rfl (by simp [workAt])
    · exact paced_of_work source rfl (by simp [workAt])
  case dropLoad =>
    unfold dropLoad
    split
    case h_2 | h_3 => exact paced_of_reaches source release_reaches rfl rfl (by simp [workAt])
    all_goals exact paced_of_work source rfl (by simp [workAt])
  case cancelRemove =>
    simp only [cancelRemove]
    split
    · have erased : (state.queue.entries.erase party).length ≤ state.queue.entries.length :=
        List.length_erase_le
      refine paced_of_work source rfl ?_
      simp only [State.goto, WaitQueue.remove_entries, workAt, Unlock.work]
      omega
    · exact paced_of_work source rfl (by simp [workAt, Unlock.work])
  case closeFlag =>
    simp only [closeFlag]
    split
    · exact paced_of_work source rfl (by simp [workAt])
    · split <;> exact paced_of_work source rfl (by simp [workAt])
  case closePop =>
    refine paced_of_work source rfl ?_
    simp only [closePop, State.goto, WaitQueue.leave_entries, workAt, Unlock.work, List.length_nil]
    omega
  case forgetLoad m =>
    unfold forgetNext
    split <;> exact paced_of_work source rfl (by simp [workAt])
  case forgetCas m cur =>
    unfold forgetCas
    split
    · exact paced_of_work source rfl (by simp [workAt])
    · rename_i stale
      unfold forgetNext
      split
      · exact paced_of_work source rfl (by simp [workAt])
      · exact paced_of_retry source rfl (by simp [retriesAt, stale])
  case signalTake node rest closed after =>
    exact paced_of_work source rfl (by simp [signalTake, workAt])

/-- **Without new calls the semaphore comes to a standstill.** -/
theorem acquire_settles (width : PointerWidth) (n : ℕ) (state : State ι γ) (alarm : Alarm ι) :
    Sleeping.Settles (halting ι γ width n) (state, alarm) := by
  have only {move : Move γ} (internal : move.isAdvance = true) : move = .advance := by
    cases move <;> first | rfl | cases internal
  have quiet {move : Move γ} (internal : move.isAdvance = true) : pollsWith move = none := by
    rw [only internal]
    rfl
  have reloadsGo {pc : Pc ι γ} (reloads : (sleeping ι γ width n).reloads pc = true) :
      haltAt pc = .goes := by
    cases pc <;> first | rfl | cases reloads
  refine (pace ι γ width n).settles (fun _ => True) quiet reloadsGo ?_ (fun _ _ _ => trivial)
    trivial
  intro state party move next _ internal stepped
  cases only internal
  exact advance_paced stepped

end Steps

end Xutex.Semaphore
