/-
**The barrier settles.**

`arrive` and the withdrawal of a dropped future retry their CAS while others arrive; everything else
on the barrier goes straight on. The nodes that a leader pops are signalled one by one, so a linked
node costs two steps (`pace`).

* `wait_settles` — **without new calls the barrier comes to a standstill**, from every state and in
  every order of the steps. The calls need not have returned there: a thread may be in `park`, the
  drop of a future may wait for a signal that nobody sends (`dropSpin`), and from a state in which
  nobody lets go of the tag-lock the loops that wait for it spin on.
-/

import Xutex.Barrier.Standstill
import Xutex.Core.Settling

set_option linter.unusedSectionVars false

namespace Xutex.Barrier

open Concurrency Sleeping

variable {ι : Type} [DecidableEq ι]

/-! ### The rank -/

/-- What is left of the call, retries apart. -/
def workAt : Pc ι → ℕ
  | .idle | .future => 0
  | .waitPark | .dropSpin => 1
  | .waitSwap | .releaseDrain _ _ | .removeUnlock _ => 2
  | .enqueueUnlock _ _ | .releaseLock _ _ | .removeNode => 3
  | .removeLock => 4
  | .withdrawCas _ => 5
  | .enqueuePush _ _ | .withdrawLoad => 6
  | .enqueueFresh _ _ => 7
  | .enqueueLock _ _ => 8
  | .arriveCas _ _ => 9
  | .arriveLoad _ => 10
  | .rearmLoad _ => 11
  | .rearmRegister _ => 12
  | .releaseUnlock _ chain => 2 * chain.length + 1
  | .releaseTake _ _ rest => 2 * rest.length + 2
  | .releasePublish _ _ rest => 2 * rest.length + 1

/-- The CAS of the party is going to fail. -/
def retriesAt (word : ℕ) : Pc ι → ℕ
  | .arriveCas _ cur | .withdrawCas cur => if word = cur then 0 else 1
  | _ => 0

/-- **The pace of the barrier.** -/
def pace (ι : Type) [DecidableEq ι] (half n : ℕ) : Pace (sleeping ι half n) where
  cost state := 2 * state.queue.entries.length
  work := workAt
  retries state := retriesAt state.word

section Steps

variable [Fintype ι] {half n : ℕ} {state next : State ι} {party : ι}

/-- A step of the barrier. -/
abbrev Paced (half n : ℕ) (state next : State ι) (party : ι) : Prop :=
  (pace ι half n).Step (halting ι half n) state next party

theorem paced_of_work {here pc : Pc ι} (source : state.pc party = here)
    (moved : next.pc = Function.update state.pc party pc)
    (less : 2 * next.queue.entries.length + workAt pc < 2 * state.queue.entries.length + workAt
      here) :
    Paced half n state next party :=
  Pace.Step.work source moved less

theorem paced_of_retry {here pc : Pc ι} (source : state.pc party = here)
    (same : workAt pc = workAt here) (less : retriesAt state.word pc < retriesAt state.word here) :
    Paced half n state (state.goto party pc) party :=
  Pace.Step.retry source rfl rfl same rfl less

/-- The next node of `signal_all`. -/
theorem releaseNext_paced {here : Pc ι} {mode : Mode} {chain : List ι}
    (source : state.pc party = here)
    {before : State ι} (same : before.pc = state.pc)
    (entries : before.queue.entries = state.queue.entries)
    (less : 2 * chain.length < workAt here) :
    Paced half n state (releaseNext before party mode chain) party := by
  cases chain with
  | nil =>
    have moved : (releaseNext before party mode []).pc = Function.update state.pc party
        (State.resume mode) := by
      simp [releaseNext, releaseReturn, same]
    refine paced_of_work source moved ?_
    cases mode <;> simpa [releaseNext, releaseReturn, entries, workAt] using less
  | cons node rest =>
    have moved : (releaseNext before party mode (node :: rest)).pc =
        Function.update state.pc party (.releaseTake mode node rest) := by
      simp [releaseNext, same]
    refine paced_of_work source moved ?_
    simpa [releaseNext, entries, workAt, Nat.mul_add] using less

/-- **Every step inside a call does a piece of work or ends a retry.** -/
theorem advance_paced (stepped : advance half (coreSize n) state party = some next) :
    Paced half n state next party := by
  cases source : state.pc party <;>
    simp only [advance, source, Option.some.injEq, reduceCtorEq] at stepped
  case releaseLock mode expected =>
    unfold releaseLock at stepped
    split at stepped <;> cases stepped
    · cases mode <;> exact paced_of_work source rfl (by simp [releaseReturn, workAt])
    · rename_i result
      exact paced_of_work source rfl (by simp [WaitQueue.lock_entries result, workAt])
  case enqueueLock mode expected =>
    unfold enqueueLock at stepped
    split at stepped <;> cases stepped
    rename_i result
    exact paced_of_work source rfl (by simp [WaitQueue.lock_entries result, workAt])
  case removeLock =>
    unfold removeLock at stepped
    split at stepped <;> cases stepped
    · exact paced_of_work source rfl (by simp [workAt])
    · rename_i result
      exact paced_of_work source rfl (by simp [WaitQueue.lock_entries result, workAt])
  case waitPark =>
    unfold waitPark at stepped
    split at stepped <;> cases stepped
    exact paced_of_work source rfl (by simp [workAt])
  case dropSpin =>
    unfold dropSpin at stepped
    split at stepped <;> cases stepped
    exact paced_of_work source rfl (by simp [workAt])
  all_goals subst stepped
  case arriveCas mode cur =>
    simp only [arriveCas]
    split
    · split
      · exact paced_of_work source (arriveLeader_pc _ _ _ _) (by simp [workAt])
      · exact paced_of_work source (arriveWait_pc _ _ _ _) (by simp [workAt])
    · rename_i moved
      exact paced_of_retry source rfl (by simp [retriesAt, moved])
  case withdrawLoad =>
    unfold withdrawTry
    split <;> exact paced_of_work source rfl (by simp [workAt])
  case withdrawCas cur =>
    unfold withdrawCas
    split
    · exact paced_of_work source rfl (by simp [workAt])
    · rename_i moved
      unfold withdrawTry
      split
      · exact paced_of_retry source rfl (by simp [retriesAt, moved])
      · exact paced_of_work source rfl (by simp [workAt])
  case releaseDrain mode expected =>
    refine paced_of_work source rfl ?_
    have parts := congrArg List.length
      (List.takeWhile_append_dropWhile
      (p := fun node => decide ((state.signal node).aux = expected)) (l := state.queue.entries))
    rw [List.length_append] at parts
    simp only [releaseDrain, State.goto, WaitQueue.leave_entries, workAt]
    omega
  case releaseUnlock mode chain => exact releaseNext_paced source rfl rfl (by simp [workAt])
  case releasePublish mode node rest => exact releaseNext_paced source rfl rfl (by simp [workAt])
  case enqueueFresh mode expected =>
    unfold enqueueFresh
    split <;> exact paced_of_work source rfl (by simp [workAt])
  case enqueueUnlock mode enqueued =>
    rcases mode with _ | waker <;> cases enqueued <;>
      exact paced_of_work source rfl (by simp [enqueueUnlock, workAt])
  case waitSwap =>
    simp only [waitSwap]
    split <;> exact paced_of_work source rfl (by simp [workAt])
  case rearmRegister waker =>
    simp only [rearmRegister]
    split <;> exact paced_of_work source rfl (by simp [workAt])
  case rearmLoad waker =>
    simp only [rearmLoad, pollValue]
    repeat' split
    all_goals exact paced_of_work source rfl (by simp [workAt])
  case removeNode =>
    refine paced_of_work source rfl ?_
    have erased : (state.queue.entries.erase party).length ≤ state.queue.entries.length :=
      List.length_erase_le
    simp only [removeNode, State.goto, WaitQueue.remove_entries, workAt]
    omega
  case removeUnlock found =>
    cases found <;> exact paced_of_work source rfl (by simp [removeUnlock, workAt])
  case enqueuePush mode expected =>
    exact paced_of_work source rfl (by simp [enqueuePush, workAt]; omega)
  all_goals exact paced_of_work source rfl (by simp [arriveLoad, releaseTake, workAt])

/-- **Without new calls the barrier comes to a standstill.** -/
theorem wait_settles (half n : ℕ) (state : State ι) (alarm : Alarm ι) :
    Settles (halting ι half n) (state, alarm) := by
  have only {move : Move} (internal : decide (move = .advance) = true) :
      move = .advance := of_decide_eq_true internal
  have quiet {move : Move} (internal : decide (move = .advance) = true) :
      pollsWith move = none := by
    rw [only internal]
    rfl
  have reloadsGo {pc : Pc ι} (reloads : (sleeping ι half n).reloads pc = true) :
      haltAt pc = .goes := by
    cases pc <;> first | rfl | cases reloads
  refine (pace ι half n).settles (fun _ => True) quiet reloadsGo ?_ (fun _ _ _ => trivial) trivial
  intro state party move next _ internal stepped
  cases only internal
  exact advance_paced stepped

end Steps

end Xutex.Barrier
