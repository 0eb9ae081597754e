/-
**The mutex settles.**

The loops of the mutex are those of its word: `lock_slow`, `enqueue`, `remove_from_queue` and the
drop of a guard look at it again when a CAS has failed, and wait while somebody edits the queue. A
failed CAS is a retry (`retriesAt`), and a look at the word ends it as long as the word stays; the
writes to the word are pieces of work (`workAt`), of which every call has a few.

* `lock_settles` — **without new calls the mutex comes to a standstill**, from every reachable state
  and in every order of the steps, **and no call is left in a loop there**: it has returned, is a
  pending request, or is a thread in `park`. That thread need not return: its guard may never be
  dropped. The loops are left if they are run; that a scheduler runs them is not part of the model.
-/

import Xutex.Core.Settling
import Xutex.Mutex.Standstill

set_option linter.unusedSectionVars false

namespace Xutex.Mutex

open Concurrency PointerWidth Sleeping

variable {ι : Type} [DecidableEq ι]

/-! ### The rank -/

/-- What is left of the call, retries apart. -/
def workAt : Pc ι → ℕ
  | .idle | .future => 0
  | .tryLock | .waitPark | .rearmLoad | .signalPublish _ | .unlockFree _ => 1
  | .waitSwap | .rearmRegister _ | .signalTake _ => 2
  | .waitSpin | .unlockUntag _ _ => 3
  | .publish _ _ _ | .unlockPop _ => 4
  | .push _ _ | .unlockTag _ | .unlockReload => 5
  | .allocate _ | .unlock => 6
  | .contendLock _ | .contendInit _ | .contendTag _ _ | .cancelSpin => 7
  | .lock | .pollLock _ | .cancelUntag _ _ => 8
  | .cancelRemove _ => 9
  | .cancelLoad | .cancelTag _ => 10

/-- How far a loop is from its next write, as long as the word stays: a CAS that is going to fail
comes before the look at the word, and that before a CAS that is not. -/
def retriesAt (width : PointerWidth) (word : ℕ) : Pc ι → ℕ
  | .contendLock _ | .cancelLoad | .unlockReload => 1
  | .contendInit _ => if word = width.locked then 0 else 2
  | .contendTag _ ptr | .cancelTag ptr | .unlockTag ptr => if word = ptr then 0 else 2
  | _ => 0

/-- **The pace of the mutex.** -/
def pace (ι : Type) [DecidableEq ι] (width : PointerWidth) : Pace (sleeping ι width) where
  cost _ := 0
  work := workAt
  retries state := retriesAt width state.word

section Steps

variable [Fintype ι] {width : PointerWidth} {state next : State ι} {status : Status ι} {party : ι}

/-- A step of the mutex. -/
abbrev Paced (width : PointerWidth) (state next : State ι) (party : ι) : Prop :=
  (pace ι width).Step (halting ι width) state next party

theorem paced_of_work {here pc : Pc ι} (source : state.pc party = here)
    (moved : next.pc = Function.update state.pc party pc) (less : workAt pc < workAt here) :
    Paced width state next party :=
  Pace.Step.work source moved (Nat.add_lt_add_left less 0)

theorem paced_of_retry {here pc : Pc ι} (source : state.pc party = here)
    (same : workAt pc = workAt here)
    (less : retriesAt width state.word pc < retriesAt width state.word here) :
    Paced width state (state.goto party pc) party :=
  Pace.Step.retry source rfl rfl same rfl less

theorem paced_of_spin {pc : Pc ι} (source : state.pc party = pc) (spins : haltAt pc = .spins) :
    Paced width state (state.goto party pc) party := by
  refine .spins ?_ ((congrArg haltAt source).trans spins)
  rw [← source, State.goto, Function.update_eq_self]

/-- A loop goes on with the word it has read. -/
theorem untag_word (described : Described width state status) (waiters : state.word ≠ width.locked)
    (filled : state.word ≠ width.updating) (untagged : (untagPointer width state.word).2 = false) :
    (untagPointer width state.word).1 = state.word := by
  have encodes := described.encodes
  cases status with
  | unlocked =>
    rw [show state.word = 0 from encodes, untagPointer, Nat.zero_and]
  | locked => exact absurd encodes waiters
  | updating party => exact absurd encodes filled
  | queue ptr =>
    obtain ⟨queue, same⟩ := encodes
    rw [same, queue.untag]
  | held party ptr =>
    obtain ⟨queue, updating | tagged⟩ := encodes
    · exact absurd updating filled
    · rw [tagged, queue.untag_tagged] at untagged
      cases untagged

/-- The loop of `lock_slow` and `enqueue` with a look at the word. -/
theorem contendNext_paced {mode : Mode} (described : Described width state status)
    (source : state.pc party = .contendLock mode) :
    Paced width state (state.goto party (contendNext width mode state.word)) party := by
  unfold contendNext
  split
  · exact paced_of_spin source rfl
  · rename_i filled
    split
    · rename_i same
      exact paced_of_retry source rfl (by simp [retriesAt, same])
    · rename_i waiters
      split
      · exact paced_of_spin source rfl
      · rename_i untagged
        have fresh := untag_word described waiters filled (Bool.not_eq_true _ ▸ untagged)
        exact paced_of_retry source rfl (by simp [retriesAt, fresh])

/-- The loop of `MutexGuard::drop_slow` with a look at the word. -/
theorem unlockNext_paced {here : Pc ι} (described : Described width state status)
    (source : state.pc party = here)
    (looks : here = .unlockReload ∨ ∃ ptr, here = .unlockTag ptr ∧ state.word ≠ ptr) :
    Paced width state (state.goto party (unlockNext width state.word)) party := by
  have work : workAt here = 5 := by
    rcases looks with rfl | ⟨ptr, rfl, -⟩ <;> rfl
  have again : Paced width state (state.goto party .unlockReload) party := by
    rcases looks with rfl | ⟨ptr, rfl, stale⟩
    · exact paced_of_spin source rfl
    · exact paced_of_retry source rfl (by simp [retriesAt, stale])
  unfold unlockNext
  split
  · exact again
  · rename_i neither
    split
    · exact again
    · rename_i untagged
      have fresh := untag_word described (fun same => neither (.inr same))
        (fun same => neither (.inl same)) (Bool.not_eq_true _ ▸ untagged)
      refine paced_of_retry source (by rw [work]; rfl) ?_
      rcases looks with rfl | ⟨ptr, rfl, stale⟩
      · simp [retriesAt, fresh]
      · simp [retriesAt, fresh, stale]

theorem unlockNext_work (width : PointerWidth) (word : ℕ) :
    workAt (unlockNext width word : Pc ι) = 5 := by
  unfold unlockNext
  split
  · rfl
  · split <;> rfl

theorem contendNext_work (width : PointerWidth) (mode : Mode) (word : ℕ) :
    workAt (contendNext width mode word : Pc ι) = 7 := by
  unfold contendNext
  split
  · rfl
  · split
    · rfl
    · split <;> rfl

/-- **Every step inside a call does a piece of work or ends a retry**, or it is a round of a spin
loop. -/
theorem advance_paced (described : Described width state status)
    (stepped : advance width state party = some next) : Paced width state next party := by
  cases source : state.pc party <;>
    simp only [advance, source, Option.some.injEq, reduceCtorEq] at stepped
  case waitPark =>
    unfold waitPark at stepped
    split at stepped <;> cases stepped
    exact paced_of_work source rfl (by simp [workAt])
  case cancelSpin =>
    unfold cancelSpin at stepped
    split at stepped <;> cases stepped
    exact paced_of_work source rfl (by simp [workAt])
  case cancelLoad =>
    unfold cancelLoad at stepped
    split at stepped
    · cases stepped
      exact paced_of_work source rfl (by simp [workAt])
    · rename_i neither
      split at stepped
      · cases stepped
      · rename_i filled
        split at stepped
        · cases stepped
        · rename_i untagged
          cases stepped
          have fresh := untag_word described (fun same => neither (.inr same)) filled
            (Bool.not_eq_true _ ▸ untagged)
          exact paced_of_retry source rfl (by simp [retriesAt, fresh])
  all_goals subst stepped
  case contendLock mode =>
    unfold contendLock
    split
    · cases mode <;> exact paced_of_work source rfl (by simp [workAt])
    · exact contendNext_paced described source
  case contendInit mode =>
    unfold contendInit
    split
    · exact paced_of_work source rfl (by simp [workAt])
    · rename_i moved
      exact paced_of_retry source rfl (by simp [retriesAt, moved])
  case contendTag mode ptr =>
    unfold contendTag
    split
    · exact paced_of_work source rfl (by simp [workAt])
    · rename_i moved
      exact paced_of_retry source rfl (by simp [retriesAt, moved])
  case cancelTag ptr =>
    unfold cancelTag
    split
    · exact paced_of_work source rfl (by simp [workAt])
    · rename_i moved
      exact paced_of_retry source rfl (by simp [retriesAt, moved])
  case unlockReload => exact unlockNext_paced described source (.inl rfl)
  case unlockTag ptr =>
    unfold unlockTag
    split
    · exact paced_of_work source rfl (by simp [workAt])
    · rename_i moved
      exact unlockNext_paced described source (.inr ⟨ptr, rfl, moved⟩)
  case unlock =>
    unfold unlock
    split
    · exact paced_of_work source rfl (by simp [workAt])
    · exact paced_of_work source rfl (by rw [unlockNext_work]; simp [workAt])
  case tryLock =>
    unfold tryLock
    split <;> exact paced_of_work source rfl (by simp [workAt])
  case lock =>
    unfold lock
    split <;> exact paced_of_work source rfl (by simp [workAt])
  case pollLock waker =>
    unfold pollLock
    split
    · exact paced_of_work source rfl (by simp [workAt])
    · exact paced_of_work source rfl (by rw [contendNext_work]; simp [workAt])
  case publish mode ptr first =>
    rcases mode with _ | waker <;> cases first <;> exact paced_of_work source rfl (by simp [workAt])
  case waitSpin =>
    unfold waitSpin
    split <;> exact paced_of_work source rfl (by simp [workAt])
  case waitSwap =>
    simp only [waitSwap]
    split <;> exact paced_of_work source rfl (by simp [workAt])
  case rearmRegister waker =>
    simp only [rearmRegister]
    split <;> exact paced_of_work source rfl (by simp [workAt])
  case rearmLoad =>
    unfold rearmLoad
    split <;> exact paced_of_work source rfl (by simp [workAt])
  case cancelUntag ptr found => cases found <;> exact paced_of_work source rfl (by simp [workAt])
  case unlockPop ptr =>
    unfold unlockPop
    split <;> exact paced_of_work source rfl (by simp [workAt])
  all_goals exact paced_of_work source rfl (by simp [workAt])

/-- The allocator answers. -/
theorem allocate_paced {ptr : ℕ} (stepped : begin width state party (.allocate ptr) = some next) :
    Paced width state next party := by
  simp only [begin] at stepped
  split at stepped
  · rename_i mode source
    split at stepped <;> cases stepped
    exact paced_of_work source rfl (by simp [workAt])
  · cases stepped

theorem step_paced {move : Move} (described : Described width state status)
    (internal : move.isInternal = true)
    (stepped : step width state (party, move) = some next) : Paced width state next party := by
  cases move with
  | advance => exact advance_paced described stepped
  | allocate ptr => exact allocate_paced stepped
  | _ => cases internal

theorem settles_of_reachable (reach : (machine ι width).Reachable state) (alarm : Alarm ι) :
    Sleeping.Settles (halting ι width) (state, alarm) := by
  have quiet {move : Move} (internal : move.isInternal = true) : pollsWith move = none := by
    cases move <;> first | rfl | cases internal
  have reloadsGo {pc : Pc ι} (reloads : (sleeping ι width).reloads pc = true) :
      haltAt pc = .goes := by
    cases pc <;> first | rfl | cases reloads
  refine (pace ι width).settles _ quiet reloadsGo ?_ ?_ reach
  · intro state party move next reach internal stepped
    obtain ⟨status, described⟩ := described_of_reachable reach
    exact step_paced described internal stepped
  · exact fun reach _ stepped => reach.step stepped trivial

/-- **Without new calls the mutex comes to a standstill, and no call is left in a loop there.** -/
theorem lock_settles (reach : (machine ι width).Reachable state) (alarm : Alarm ι) :
    Sleeping.Settles (halting ι width) (state, alarm) ∧
      ∀ last, Relation.ReflTransGen (Progress (halting ι width)) (state, alarm) last →
        Standstill (halting ι width) last → ∀ party,
        last.1.pc party = .idle ∨ last.1.pc party = .future ∨ last.1.pc party = .waitPark := by
  refine ⟨settles_of_reachable reach alarm, fun last run still party => ?_⟩
  exact rests_or_parks_of_standstill (Halting.reachable_of_progress reach run) still party

end Steps

/-- `a` has the lock and drops its guard while `b`, which found the mutex locked, fills the queue
and `c`, which came before, still has to look again. -/
def dropsWhileFilled {ι : Type} (a b c : ι) : List (Label ι) :=
  List.flatten [[(a, .lock), (a, .advance), (c, .lock), (c, .advance), (c, .advance), (b, .create),
    (b, .poll 5)], List.replicate 2 (b, .advance), [(a, .dropGuard), (a, .advance), (c, .advance)]]

/-- Nobody spins forever: there is a standstill to be reached, and no call is left in a loop
there. -/
theorem lock_settles_filled : ∃ state : State (Fin 3), (machine (Fin 3) .bits64).Reachable state ∧
    state.pc 0 = .unlockReload ∧ state.pc 1 = .allocate (.poll 5) ∧
      state.pc 2 = .contendLock .wait ∧
    ∃ last, Relation.ReflTransGen (Progress (halting (Fin 3) .bits64)) (state, .new) last ∧ ∀ party,
      last.1.pc party = .idle ∨ last.1.pc party = .future ∨ last.1.pc party = .waitPark := by
  obtain ⟨state, reach, ended⟩ := System.exists_reachable_of_run (machine (Fin 3) .bits64)
    (fun state => decide (state.pc 0 = .unlockReload ∧ state.pc 1 = .allocate (.poll 5) ∧
      state.pc 2 = .contendLock .wait)) ⟨fun _ => [], rfl⟩ (dropsWhileFilled 0 1 2)
      (by decide +kernel)
  obtain ⟨drops, fills, looks⟩ := of_decide_eq_true ended
  obtain ⟨settles, unspun⟩ := lock_settles reach .new
  obtain ⟨last, run, still⟩ := settles.reaches
  exact ⟨state, reach, drops, fills, looks, last, run, unspun last run still⟩

end Xutex.Mutex
