/-
**The reader-writer lock at a standstill.**

The lock is the semaphore under calls of its own, so its sleepers are those of the semaphore
(`sleeping`, by `relabel`), and a standstill of the lock is one of the semaphore. What the lock adds
is what the permits mean: none is ever forgotten, so that those which the front of the queue misses
are with guards.

* `unforgotten_of_reachable` — no call of the lock reaches `forget`.
* `standstill_guarded` — **the standstill of the lock**: whoever is blocked waits for a live guard,
  or for a future that has its guard and was woken. The runs are those in which no rearm replaces a
  waker that the signaler has taken.
-/

import Xutex.RwLock.Exclusion
import Xutex.Semaphore.Standstill

set_option linter.unusedSectionVars false

namespace Xutex.RwLock

open Concurrency Semaphore

variable {ι : Type} [DecidableEq ι]

/-! ### No permit is forgotten -/

section Forgotten

variable {width : PointerWidth} {maxReaders : ℕ} {state next : State ι Guard} {party : ι}

theorem release_remembers {n : ℕ} {after : After Guard} :
    (release state party n after).forgotten = state.forgotten := by
  unfold release
  split
  · cases after <;> rfl
  · rfl

/-- Permits are forgotten at one point only. -/
theorem advance_remembers (keeps : ∀ n cur, state.pc party ≠ .forgetCas n cur)
    (stepped : advance width state party = some next) : next.forgotten = state.forgotten := by
  have finish {before : State ι Guard} {after : After Guard} :
      (finish before party after).forgotten = before.forgotten := by
    cases after <;> rfl
  have panics {before : State ι Guard} {after : After Guard} :
      (releasePanic before party after).forgotten = before.forgotten := by
    cases after <;> rfl
  have acquired {before : State ι Guard} {mode : Mode} :
      (acquired before party mode).forgotten = before.forgotten := by
    cases mode <;> rfl
  have refused {before : State ι Guard} {mode : Mode} :
      (refused before party mode).forgotten = before.forgotten := by
    cases mode <;> rfl
  cases source : state.pc party <;>
    simp only [advance, source, Option.some.injEq, reduceCtorEq] at stepped
  case forgetCas n cur => exact absurd source (keeps n cur)
  case drainLock =>
    unfold drainLock at stepped
    split at stepped <;> cases stepped <;> first | rfl | exact finish
  case enqueueLock | cancelLock | closeLock =>
    simp only [enqueueLock, cancelLock, closeLock] at stepped
    split at stepped <;> cases stepped <;> rfl
  case syncPark =>
    simp only [syncPark, finishSync] at stepped
    split at stepped <;> cases stepped
    split
    · rw [acquired]
    · rw [release_remembers]
  case cancelWait =>
    simp only [cancelWait] at stepped
    split at stepped <;> cases stepped
    exact release_remembers
  all_goals subst stepped
  all_goals first
    | rfl
    | (simp only [tryCas, tryTaken, tryNext, tryFailed, enqueueOrAcquire, releaseAdd, unlock,
        unlocked, signalPublish, signalNext, syncSpin, syncSwap, finishSync, rearmRegister,
        rearmLoad, pollFinal, dropLoad, forgetNext, drainCas, enqueueCas, cancelRemove, closeFlag]
       repeat' split
       all_goals first
         | rfl | exact finish | exact panics | exact acquired | exact refused
         | exact release_remembers)

/-- No call of the lock begins with a `forget`. -/
theorem begin_remembers {move : Move}
    (stepped : begin width state party (move.onSemaphore maxReaders) = some next) :
    next.forgotten = state.forgotten := by
  cases move <;> simp only [Move.onSemaphore, begin, beginRequest] at stepped
  case advance => cases stepped
  all_goals
    split at stepped <;> cases stepped
    first
      | rfl
      | exact release_remembers
      | (simp only [poll, pollFinal, drop]
         repeat' split
         all_goals first | rfl | exact release_remembers)

/-- **The lock forgets no permit.** -/
theorem unforgotten_of_reachable [Fintype ι]
    (reach : (machine ι width maxReaders).Reachable state) : state.forgotten = 0 := by
  refine reach.invariant (fun state => state.forgotten = 0) ?_ ?_
  · rintro _ ⟨-, -, rfl⟩
    rfl
  · rintro state label next before unforgotten stepped -
    have sound := (sound_of_reachable before).2.1
    have stepped : Semaphore.step width state (label.1, label.2.onSemaphore maxReaders) =
        some next := stepped
    unfold Semaphore.step at stepped
    split at stepped
    · refine (advance_remembers (fun n cur source => ?_) stepped).trans unforgotten
      have point := sound.points label.1
      rw [source] at point
      exact point
    · exact (begin_remembers stepped).trans unforgotten

end Forgotten

/-! ### The lock and its sleepers -/

/-- **The sleepers of the lock** are those of its semaphore. -/
def sleeping (ι : Type) [DecidableEq ι] (width : PointerWidth) (maxReaders : ℕ) :
    Sleeping (State ι Guard) ι (Pc ι Guard) Move :=
  (Semaphore.sleeping ι Guard width maxReaders).relabel (machine ι width maxReaders)
    (Move.onSemaphore maxReaders) .advance rfl

/-- The calls of the lock stop where those of the semaphore do. -/
def halting (ι : Type) [DecidableEq ι] (width : PointerWidth) (maxReaders : ℕ) :
    Halting (sleeping ι width maxReaders) :=
  (Semaphore.halting ι Guard width maxReaders).relabel (machine ι width maxReaders)
    (Move.onSemaphore maxReaders) .advance rfl

/-- The lock and its sleepers, in all runs whose polls re-register as `Rearmed` asks. -/
abbrev SleepingRuns (width : PointerWidth) (maxReaders : ℕ) (pair : State ι Guard × Alarm ι) :
    Prop :=
  (sleeping ι width maxReaders).machine.ReachableBy
    ((sleeping ι width maxReaders).Permits fun _ _ _ => True) pair

section Transfer

variable [Fintype ι] {width : PointerWidth} {maxReaders : ℕ} {state next : State ι Guard}
  {party : ι} {pair : State ι Guard × Alarm ι}

/-- The calls of the lock ask for no more than there is. -/
theorem modest_step {move : Move} (fits : maxReaders ≤ maxPermits width)
    (reach : (machine ι width maxReaders).Reachable state)
    (stepped : (machine ι width maxReaders).step state (party, move) = some next) :
    modest width (party, move.onSemaphore maxReaders) next = true := by
  obtain ⟨-, sound, positive⟩ := sound_of_reachable (reach.step stepped trivial)
  refine decide_eq_true ⟨?_, sound.created ▸ fits⟩
  cases move <;> first | exact fits | exact le_trans positive fits | exact Nat.zero_le _

theorem step_onSemaphore (state : State ι Guard) (party : ι) (move : Move) :
    (machine ι width maxReaders).step state (party, move) =
      (Semaphore.sleeping ι Guard width maxReaders).core.step state
      (party, move.onSemaphore maxReaders) := rfl

/-- **The runs of the lock are modest runs of its semaphore.** -/
theorem semaphoreRuns_of_reachable (reach : SleepingRuns width maxReaders pair) :
    Semaphore.SleepingRuns width maxReaders pair := by
  have fits : maxReaders ≤ maxPermits width := by
    refine reach.invariant (fun _ => maxReaders ≤ maxPermits width) ?_ fun _ _ _ _ fits _ _ => fits
    rintro _ ⟨⟨-, fits, -⟩, -⟩
    exact fits
  refine Sleeping.relabel_reachable step_onSemaphore ?_ ?_ reach
  · rintro state ⟨-, fits, rfl⟩
    exact ⟨fits, .read, rfl⟩
  · exact fun before stepped _ => modest_step fits before stepped

/-- **A standstill of the lock is one of its semaphore.** -/
theorem semaphore_standstill (still : Sleeping.Standstill (halting ι width maxReaders) pair) :
    Sleeping.Standstill (Semaphore.halting ι Guard width maxReaders) pair := by
  refine Halting.relabel_standstill step_onSemaphore (fun move internal => ⟨.advance, ?_⟩) still
  cases move <;> first | rfl | cases internal

end Transfer

/-! ### The standstill -/

variable {state : State ι Guard} {alarm : Alarm ι} {party : ι}

/-- The future has its guard and was woken; its task has not polled it yet. -/
structure Granted (state : State ι Guard) (alarm : Alarm ι) (party : ι) : Prop where
  rests : state.pc party = .future
  signalled : (state.signal party).value = .signaled
  woken : alarm.woken party = true

/-- **How a party is left at a standstill**: in no call, with a future that is complete or fresh or
has its guard, or in the queue. -/
inductive Left (state : State ι Guard) (alarm : Alarm ι) (party : ι) : Prop
  | idle (rests : state.pc party = .idle)
  | ended (rests : state.pc party = .future) (ended : valueWaits (state.signal party).value = false)
  | granted (granted : Granted state alarm party)
  | pending (rests : state.pc party = .future) (unserved : Unserved state party)
  | parked (parked : state.pc party = .syncPark) (unserved : Unserved state party)

/-- The permits of the guard that the future of the party has and has not returned. -/
def grantedPermits (state : State ι Guard) (party : ι) : ℕ :=
  if state.pc party = .future ∧
    (state.signal party).value = .signaled then state.requested party else 0

section Standstill

variable [Fintype ι] {width : PointerWidth} {maxReaders : ℕ}

theorem left_of_semaphore (sound : Sound maxReaders state)
    (left : Semaphore.Left state alarm party) : Left state alarm party := by
  cases left with
  | idle rests => exact .idle rests
  | ended rests ended => exact .ended rests ended
  | woken rests signalled woken =>
    exact .granted ⟨rests, signalled.resolve_right (sound.values party), woken⟩
  | pending rests unserved => exact .pending rests unserved
  | parked parked unserved => exact .parked parked unserved

/-- Behind the front nobody has anything, apart from the futures that have all. -/
theorem share_of_left (ledger : Ledger width state) (left : Left state alarm party)
    (behind : party ∈ state.queue.entries → (state.signal party).aux = state.requested party) :
    share state party = grantedPermits state party := by
  have unsignalled (unserved : Unserved state party) : (state.signal party).value ≠ .signaled :=
    fun signalled => by
    have fresh := unserved.unsignalled
    rw [signalled] at fresh
    cases fresh
  cases left with
  | idle rests =>
    simp [share, shareAt, grantedPermits, rests, drainedAt, transitAt, servedAt, waitsAt]
  | ended rests ended =>
    have other : (state.signal party).value ≠ .signaled := fun signalled => by
      rw [signalled] at ended
      cases ended
    simp [share, shareAt, grantedPermits, rests, drainedAt, transitAt, servedAt, waitsAt, ended,
      other]
  | granted granted =>
    have whole := (ledger.known party).whole (by rw [granted.rests, granted.signalled]; rfl)
      granted.signalled
    simp [share, shareAt, grantedPermits, granted.rests, granted.signalled, drainedAt, transitAt,
      servedAt, waitsAt, valueWaits, whole]
  | pending rests unserved =>
    simp [share, shareAt, grantedPermits, rests, drainedAt, transitAt, servedAt,
      behind unserved.linked, unsignalled unserved]
  | parked parked unserved =>
    simp [share, shareAt, grantedPermits, parked, drainedAt, transitAt, servedAt,
      behind unserved.linked]

/-- The front has what it was served, and it asks for a guard. -/
theorem front_of_left (sound : Sound maxReaders state) (left : Left state alarm party)
    (waits : waitsAt (state.pc party) (state.signal party).value = true)
    (unsignalled : (state.signal party).value.isFinal = false) :
    share state party = state.requested party - (state.signal party).aux ∧
      grantedPermits state party = 0 ∧ IsGuard maxReaders (state.request party) := by
  have fresh : (state.signal party).value ≠ .signaled := fun signalled => by
    rw [signalled] at unsignalled
    cases unsignalled
  have point := sound.points party
  have stands (rests : state.pc party = .future ∨ state.pc party = .syncPark) :
      share state party = state.requested party - (state.signal party).aux ∧
        grantedPermits state party = 0 ∧ IsGuard maxReaders (state.request party) := by
    rcases rests with source | source <;> rw [source] at waits point
    all_goals
      refine ⟨?_, by simp [grantedPermits, source, fresh], point⟩
      simp [share, shareAt, source, drainedAt, transitAt, servedAt, waits]
  cases left with
  | idle rests =>
    rw [rests] at waits
    cases waits
  | ended rests | pending rests => exact stands (.inl rests)
  | granted granted => exact stands (.inl granted.rests)
  | parked parked => exact stands (.inr parked)

/-- The permits of granted futures are those of futures that were woken. -/
theorem granted_of_permits (left : Left state alarm party) (has : grantedPermits state party ≠ 0) :
    Granted state alarm party := by
  have ⟨rests, signalled⟩ : state.pc party = .future ∧ (state.signal party).value = .signaled := by
    by_contra other
    exact has (if_neg other)
  cases left with
  | granted granted => exact granted
  | idle idle => cases rests.symm.trans idle
  | ended _ ended =>
    rw [signalled] at ended
    cases ended
  | pending _ unserved =>
    have unsignalled := unserved.unsignalled
    rw [signalled] at unsignalled
    cases unsignalled
  | parked parked => cases rests.symm.trans parked

theorem IsGuard.le {guard : Permit Guard} (isGuard : IsGuard maxReaders guard)
    (positive : 0 < maxReaders) : guard.permits ≤ maxReaders := by
  rw [isGuard]
  cases guard.kind
  · exact positive
  · exact le_rfl

/-- **At a standstill nobody waits for nothing.** Whoever is blocked is in the queue; while there is
a queue a guard is live, or a future has its guard and was woken. Behind a reader that is first in
line these have all the permits. -/
theorem standstill_guarded (reach : SleepingRuns width maxReaders (state, alarm))
    (still : Sleeping.Standstill (halting ι width maxReaders) (state, alarm)) :
    state.queue.holder = none ∧ (∀ party, Left state alarm party) ∧
      ∀ front rest, state.queue.entries = front :: rest →
        (state.held ≠ [] ∨ ∃ party, Granted state alarm party) ∧
          ((state.request front).kind = .read →
            heldPermits state.held + ∑ party, grantedPermits state party = maxReaders) := by
  obtain ⟨ledger, sound, positive⟩ := sound_of_reachable (Sleeping.core_reachable reach)
  have unforgotten := unforgotten_of_reachable (Sleeping.core_reachable reach)
  have below := semaphoreRuns_of_reachable reach
  obtain ⟨free, left, quiet⟩ := left_of_standstill below (semaphore_standstill still)
  have left (party : ι) : Left state alarm party := left_of_semaphore sound (left party)
  refine ⟨free, left, fun front rest linked => ?_⟩
  obtain ⟨-, short, behind⟩ := short_of_quiet (Sleeping.core_reachable below) quiet linked
  have member : front ∈ state.queue.entries := by simp [linked]
  obtain ⟨waits, unsignalled⟩ := ledger.waiting.queued member
  have waits : waitsAt (state.pc front) (state.signal front).value = true := waits
  have unsignalled : (state.signal front).value.isFinal = false := unsignalled
  obtain ⟨served, none, asks⟩ := front_of_left sound (left front) waits unsignalled
  have partly : (state.signal front).aux ≤ state.requested front :=
    (ledger.known front).served waits
  have fits : state.requested front ≤ maxReaders := asks.le positive
  have shares (party : ι) : share state party =
      grantedPermits state party + if party =
        front then state.requested front - (state.signal front).aux else 0 := by
    split
    · rename_i same
      rw [same, served, none, Nat.zero_add]
    · rename_i other
      refine share_of_left ledger (left party) fun queued => behind party ?_
      simpa [linked, other] using queued
  -- the permits that the front misses are neither in the pool nor forgotten
  have count := ledger.count
  simp only [shares, Finset.sum_add_distrib, Finset.sum_ite_eq', Finset.mem_univ, if_true, stock,
    unforgotten, sound.created] at count
  refine ⟨?_, fun reads => ?_⟩
  · by_contra nobody
    rw [not_or, not_not] at nobody
    have empty : ∑ party, grantedPermits state party = 0 := by
      refine Finset.sum_eq_zero fun party _ => ?_
      by_contra has
      exact nobody.2 ⟨party, granted_of_permits (left party) has⟩
    have released : heldPermits state.held = 0 := by rw [nobody.1]; rfl
    omega
  · have one : state.requested front = 1 := by
      rw [State.requested, asks, reads]
      rfl
    omega

end Standstill

/-- With two readers allowed, `a` takes the write lock; the future `b` and the threads `c` and `d`
queue, the last of them for the write lock. `a` downgrades: `b` is served and woken. -/
def downgradesForReader {ι : Type} (a b c d : ι) : List (Sleeping.Label ι Move) :=
  List.flatten [[.move (a, .write)], List.replicate 2 (.move (a, .advance)),
    [.move (b, .readAsync), .move (b, .poll 5)], List.replicate 6 (.move (b, .advance)),
    [.move (c, .read)], List.replicate 7 (.move (c, .advance)),
    [.move (d, .write)], List.replicate 7 (.move (d, .advance)),
    [.move (a, .downgrade)], List.replicate 8 (.move (a, .advance)), [.wake a]]

/-- Behind the reader in front, the downgraded guard and the future's have both permits. -/
theorem standstill_guarded_downgraded : ∃ pair : State (Fin 4) Guard × Alarm (Fin 4),
    SleepingRuns .bits64 2 pair ∧
    Granted pair.1 pair.2 1 ∧ pair.1.queue.entries = [2, 3] ∧ pair.1.held = [permit 2 .read] ∧
    heldPermits pair.1.held + ∑ party, grantedPermits pair.1 party = 2 := by
  have initial : (sleeping (Fin 4) .bits64 2).machine.init (start 2 .read, .new) :=
    ⟨⟨by decide, by decide, rfl⟩, rfl⟩
  obtain ⟨⟨state, alarm⟩, reach, ended⟩ := (sleeping (Fin 4) .bits64 2).exists_reachable_of_run
    (fun _ _ _ => true)
    (fun pair => decide
      ((pair.1.pc 1 = .future ∧ (pair.1.signal 1).value = .signaled ∧ pair.2.woken 1 = true) ∧
      pair.1.queue.entries = [2, 3] ∧ pair.1.held = [permit 2 .read] ∧
      (pair.1.request 2).kind = .read ∧
      ∀ party, (sleeping (Fin 4) .bits64 2).stopped pair party = true)) initial
      (downgradesForReader 0 1 2 3)
    (by decide +kernel)
  obtain ⟨⟨rests, signalled, woken⟩, linked, held, reads, stopped⟩ := of_decide_eq_true ended
  have reach : SleepingRuns .bits64 2 (state, alarm) := by simpa only [eq_self] using reach
  have only (move : Move) (internal : (move.onSemaphore 2).isAdvance = true) : move = .advance := by
    cases move <;> first | rfl | cases internal
  have still : Sleeping.Standstill (halting (Fin 4) .bits64 2) (state, alarm) :=
    Sleeping.standstill_of_stopped (fun _ move internal => .inl (only move internal)) stopped
  exact ⟨(state, alarm), reach, ⟨rests, signalled, woken⟩, linked, held,
    ((standstill_guarded reach still).2.2 2 [3] linked).2 reads⟩

end Xutex.RwLock
