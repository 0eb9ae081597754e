/-
**No node outlives its owner in a queue.**

The semaphore, the notifier, the barrier and the once-cell park their waiters in the same wait
queue. What the discipline of `Waiters` says of their nodes is put together here, push by push.

* `accounted_of_observed` — the account of every push, in every run of a primitive that keeps the
  discipline.
* `endedAt` — the party's blocking call has returned, its future has not been polled or is complete,
  or the drop of its future has finished. A complete future carries `SIGNAL_RETURNED`: what answers
  a poll has written it (`complete_returned`), and no other value but that of a fresh node ends one
  (`valueWaits_eq_false`).
* `no_node_outlives` — **for each primitive, every push is still linked, or was unlinked once by its
  owner, or was popped once and signalled at most once, and only one of these; and a node whose
  owner is done is in no queue and in no chain of popped nodes.**
-/

import Xutex.Barrier.Waiting
import Xutex.Concurrency.Observers
import Xutex.Core.Account
import Xutex.Notify.Waiting
import Xutex.OnceCell.Waiting
import Xutex.Semaphore.Waiting

set_option linter.unusedSectionVars false

namespace Xutex

open Concurrency Discipline

/-! ### Observed runs -/

section Observed

variable {ι Pc State Label : Type} [DecidableEq ι] {discipline : Discipline ι Pc}
  {machine : System State Label} {allowed : State → Label → State → Prop}

/-- The account of the nodes at a step, for a primitive whose waiters are `view`. -/
def accounting (chain : Pc → List ι) (view : State → Waiters ι Pc) (mover : Label → ι)
    (account : Account ι) (state : State) (label : Label) (next : State) : Account ι :=
  account.record chain (view state) (view next) (mover label)

/-- **What holds of the nodes of a primitive**: every push has one fate, and the node of a party
that is done is in no queue and in no chain. -/
structure Lifetimes (chain : Pc → List ι) (ended : Pc → SignalValue → Bool) (waiters : Waiters ι Pc)
    (account : Account ι) : Prop where
  fate : ∀ node push, push < account.now.pushed node → Fate waiters account node push
  done : ∀ party, ended (waiters.pc party) (waiters.signal party).value = true →
    party ∉ waiters.queue.entries ∧ ∀ signaler, party ∉ chain (waiters.pc signaler)

-- a primitive that keeps the discipline, and its waiters
variable (view : State → Waiters ι Pc) (mover : Label → ι)
  (initially : ∀ state, machine.init state →
    (view state).queue.entries = [] ∧ ∀ party, discipline.chain ((view state).pc party) = [])
  (kept : ∀ state, machine.ReachableBy allowed state → discipline.Kept (view state))
  (moves : ∀ state label next, machine.ReachableBy allowed state →
    machine.step state label = some next → allowed state label next → view next = view state ∨
      ∃ pc pc', discipline.Moves (view state) (view next) (mover label) pc pc')
include initially kept moves

/-- **The account of every push**, in every run. -/
theorem accounted_of_observed {state : State} {account : Account ι}
    (reach : machine.ObservedBy .new (accounting discipline.chain view mover)
      allowed state account) :
    discipline.Accounted (view state) account := by
  refine System.ReachableBy.observed
    (fun state account => discipline.Accounted (view state) account) ?_ ?_ reach
  · intro state initial
    exact .new (initially state initial).1 (initially state initial).2
  · intro state account label next before accounted stepped permitted
    rcases moves state label next before stepped permitted with same | ⟨pc, pc', moved⟩
    · unfold accounting
      rw [same]
      exact accounted.same
    · exact accounted.step (kept state before) moved

theorem lifetimes_of_observed {ended : Pc → SignalValue → Bool}
    (free : ∀ pc value, ended pc value = true → discipline.waits pc value = false) {state : State}
    {account : Account ι}
    (reach : machine.ObservedBy .new (accounting discipline.chain view mover)
      allowed state account) :
    Lifetimes discipline.chain ended (view state) account where
  fate _ _ past := (accounted_of_observed view mover initially kept moves reach).fate
    (kept _ reach.unobserved) past
  done _ finished := (kept _ reach.unobserved).nowhere (free _ _ finished)

end Observed

/-! ### The primitives -/

namespace Semaphore

variable {ι γ : Type} [DecidableEq ι] [DecidableEq γ]

/-- The party's call or future is over, or its future was never polled. -/
def endedAt : Pc ι γ → SignalValue → Bool
  | .idle, _ => true
  | .future, value => !valueWaits value
  | _, _ => false

/-- A future that has its permits or its error is complete; one that is closed is so before it gives
back what it was granted. -/
theorem complete_returned (state : State ι γ) (party : ι) (waker : Waker) :
    ((acquired state party (.poll waker)).signal party).value = .returned ∧
      ((refused state party (.poll waker)).signal party).value = .returned ∧
      After.own (.closedPoll : After γ) = some .returned := by
  simp [acquired, refused, After.own]

/-- No request is above `MAX_PERMITS`. -/
def Within (width : PointerWidth) (state : State ι γ) : Prop :=
  ∀ party, state.requested party ≤ maxPermits width

/-- The runs without a request above `MAX_PERMITS`, with the account of the nodes. -/
abbrev Accounts (width : PointerWidth) (n : ℕ) (state : State ι γ) (account : Account ι) : Prop :=
  (machine ι γ width n).ObservedBy .new (accounting chainOf State.waiters Prod.fst)
    (fun _ _ next => Within width next) state account

variable {width : PointerWidth} {n : ℕ} {state next : State ι γ}

theorem within_of_reachable
    (reach : (machine ι γ width n).ReachableBy (fun _ _ next => Within width next) state) :
    Within width state := by
  refine reach.invariant (Within width) ?_ fun _ _ _ _ _ _ within => within
  rintro _ ⟨-, kind, rfl⟩ party
  exact Nat.zero_le _

theorem bounded_of_within {label : Label ι γ} (within : Within width state) :
    bounded width state label = true := by
  have admits : Admits width state label.1 := .inl (within label.1)
  unfold bounded
  split
  · exact decide_eq_true admits
  · exact decide_eq_true (.inr admits)
  · rfl

theorem boundedRuns_of_within
    (reach : (machine ι γ width n).ReachableBy (fun _ _ next => Within width next) state) :
    BoundedRuns width n state := by
  refine reach.invariant (BoundedRuns width n) (fun _ initial => .start initial) ?_
  intro state label next before bounded stepped _
  exact .step bounded stepped (bounded_of_within (within_of_reachable before))

/-- Every step is a move of the nodes, or touches none. -/
theorem step_touches {label : Label ι γ} (waiting : Waiting state)
    (fits : bounded width state label = true)
    (stepped : step width state label = some next) : next.waiters = state.waiters ∨
      ∃ pc pc', discipline.Moves state.waiters next.waiters label.1 pc pc' := by
  obtain ⟨party, move⟩ := label
  unfold step at stepped
  split at stepped
  · rename_i isAdvance
    obtain rfl : move = .advance := isAdvance
    exact .inr ⟨_, advance_moves (owned_of_waiting waiting) fits stepped⟩
  · exact (begin_moves stepped).imp id fun moves => ⟨_, moves⟩

theorem lifetimes_of_reachable {account : Account ι} (reach : Accounts width n state account) :
    Lifetimes chainOf endedAt state.waiters account := by
  have kept (state : State ι γ)
      (reach : (machine ι γ width n).ReachableBy (fun _ _ next => Within width next) state) :
      Waiting state :=
    waiting_of_reachable (boundedRuns_of_within reach)
  refine lifetimes_of_observed State.waiters Prod.fst ?_ kept ?_ ?_ reach
  · rintro _ ⟨-, kind, rfl⟩
    exact ⟨rfl, fun _ => rfl⟩
  · intro state label next before stepped _
    exact step_touches (kept state before) (bounded_of_within (within_of_reachable before)) stepped
  · intro pc value finished
    cases pc <;> simp_all [endedAt, discipline, waitsAt]

end Semaphore

namespace Notify

variable {ι : Type} [DecidableEq ι]

/-- The party's call or future is over, or its future was never polled. -/
def endedAt : Pc ι → SignalValue → Bool
  | .idle, _ => true
  | .future, value => !valueWaits value
  | _, _ => false

/-- A future whose wait is over is complete. -/
theorem complete_returned (state : State ι) (party : ι) (waker : Waker) :
    ((completed state party (.poll waker)).signal party).value = .returned := by
  simp [completed]

/-- The states of every run, with the account of the nodes. -/
abbrev Accounts (width : PointerWidth) (state : State ι) (account : Account ι) : Prop :=
  (machine ι width).ObservedBy .new (accounting chainOf State.waiters Prod.fst) (fun _ _ _ => True)
    state account

theorem lifetimes_of_reachable {width : PointerWidth} {state : State ι} {account : Account ι}
    (reach : Accounts width state account) : Lifetimes chainOf endedAt state.waiters account := by
  refine lifetimes_of_observed State.waiters Prod.fst ?_ (fun _ => waiting_of_reachable) ?_ ?_ reach
  · rintro _ rfl
    exact ⟨rfl, fun _ => rfl⟩
  · intro state label next before stepped _
    exact .inr ⟨_, step_moves (waiting_of_reachable before) stepped⟩
  · intro pc value finished
    cases pc <;> simp_all [endedAt, discipline, waitsAt]

end Notify

namespace Barrier

variable {ι : Type} [DecidableEq ι]

/-- The party's call or future is over, or its future was never polled. -/
def endedAt : Pc ι → SignalValue → Bool
  | .idle, _ => true
  | .future, value => !valueWaits value
  | _, _ => false

/-- A future that was released, found its round over or leads one is complete. -/
theorem complete_returned (state : State ι) (party : ι) (waker : Waker) (generation : ℕ) :
    ((pollValue state party waker .all).signal party).value = .returned ∧
      ((enqueueUnlock state party (.poll waker) false).signal party).value = .returned ∧
      ((arriveLeader state party (.poll waker) generation).signal party).value = .returned := by
  simp [pollValue, enqueueUnlock, arriveLeader, SignalValue.reachesAll]

/-- The states of every run, with the account of the nodes. -/
abbrev Accounts (half n : ℕ) (state : State ι) (account : Account ι) : Prop :=
  (machine ι half n).ObservedBy .new (accounting chainOf State.waiters Prod.fst) (fun _ _ _ => True)
    state account

theorem lifetimes_of_reachable {half n : ℕ} {state : State ι} {account : Account ι}
    (reach : Accounts half n state account) : Lifetimes chainOf endedAt state.waiters account := by
  refine lifetimes_of_observed State.waiters Prod.fst ?_ (fun _ => waiting_of_reachable) ?_ ?_ reach
  · rintro _ ⟨-, rfl⟩
    exact ⟨rfl, fun _ => rfl⟩
  · intro state label next before stepped _
    exact .inr ⟨_, step_moves (waiting_of_reachable before) stepped⟩
  · intro pc value finished
    cases pc <;> simp_all [endedAt, discipline, waitsAt]

end Barrier

namespace OnceCell

variable {ι V : Type} [DecidableEq ι] [Fintype ι]

/-- The party's call or future is over, or its future was never polled. -/
def endedAt : Pc ι V → SignalValue → Bool
  | .idle, _ => true
  | .future, value => !valueWaits value
  | _, _ => false

/-- A future that is about to return the value, or that passes its initializer's role on and then
returns the error, is complete. -/
theorem complete_returned {state : State ι V} {party : ι} (parked : Parked state)
    (answers : state.pc party = .valueRef true ∨ ownValue (state.pc party) = After.pollFailed.own) :
    (state.signal party).value = .returned := by
  rcases answers with here | passesOn
  · exact parked.waiting.owned party _ (congrArg ownValue here)
  · exact parked.waiting.owned party _ passesOn

/-- The states of every run, with the account of the nodes. -/
abbrev Accounts (state : State ι V) (account : Account ι) : Prop :=
  (machine ι V).ObservedBy .new (accounting chainOf State.waiters Prod.fst) (fun _ _ _ => True)
    state account

/-- Every step is a move of the nodes; `take` touches none. -/
theorem step_touches {state next : State ι V} {label : Label ι V} (parked : Parked state)
    (stepped : step state label = some next) : next.waiters = state.waiters ∨
      ∃ pc pc', discipline.Moves state.waiters next.waiters label.1 pc pc' := by
  obtain ⟨party, move⟩ := label
  unfold step at stepped
  split at stepped
  · exact .inr ⟨_, advance_moves parked.waiting stepped⟩
  · exact .inr ⟨_, user_moves parked.waiting stepped⟩
  · by_cases taken : move = .take
    · subst taken
      simp only [begin] at stepped
      split at stepped <;> cases stepped
      left
      unfold take
      split <;> rfl
    · exact .inr ⟨_, begin_moves taken (fun holds => (parked.marked party holds).2) stepped⟩

theorem lifetimes_of_reachable {state : State ι V} {account : Account ι}
    (reach : Accounts state account) : Lifetimes chainOf endedAt state.waiters account := by
  refine lifetimes_of_observed State.waiters Prod.fst ?_
    (fun _ reach => (parked_of_reachable reach).waiting) ?_ ?_ reach
  · rintro _ ⟨value, rfl⟩
    exact ⟨rfl, fun _ => rfl⟩
  · intro state label next before stepped _
    exact step_touches (parked_of_reachable before) stepped
  · intro pc value finished
    cases pc <;> simp_all [endedAt, discipline, waitsAt]

end OnceCell

/-! ### No node outlives its owner -/

/-- **No node outlives its owner in a queue**, for each primitive, any number of parties and any
interleaving of waiters, signalers and cancellations. -/
theorem no_node_outlives :
    (∀ {ι γ : Type} [DecidableEq ι] [DecidableEq γ] {width : PointerWidth} {n : ℕ}
      {state : Semaphore.State ι γ} {account : Account ι},
      Semaphore.Accounts width n state account →
      Lifetimes Semaphore.chainOf Semaphore.endedAt state.waiters account) ∧
    (∀ {ι : Type} [DecidableEq ι] {width : PointerWidth} {state : Notify.State ι}
      {account : Account ι},
      Notify.Accounts width state account →
      Lifetimes Notify.chainOf Notify.endedAt state.waiters account) ∧
    (∀ {ι : Type} [DecidableEq ι] {half n : ℕ} {state : Barrier.State ι} {account : Account ι},
      Barrier.Accounts half n state account →
      Lifetimes Barrier.chainOf Barrier.endedAt state.waiters account) ∧
    (∀ {ι V : Type} [DecidableEq ι] [Fintype ι] {state : OnceCell.State ι V} {account : Account ι},
      OnceCell.Accounts state account →
      Lifetimes OnceCell.chainOf OnceCell.endedAt state.waiters account) :=
  ⟨Semaphore.lifetimes_of_reachable, Notify.lifetimes_of_reachable, Barrier.lifetimes_of_reachable,
    OnceCell.lifetimes_of_reachable⟩

/-- `a` holds the only permit, `b` waits for it in a future, and the future is dropped. -/
def Semaphore.cancels {ι : Type} (a b : ι) : List (Label ι Unit) := List.flatten
  [[(a, .tryAcquire ⟨(), 1⟩), (a, .advance), (a, .advance), (b, .create ⟨(), 1⟩), (b, .poll 0)],
    List.replicate 6 (b, .advance), [(b, .drop)], List.replicate 5 (b, .advance)]

/-- The future of `a` waits and `b` notifies it. -/
def Notify.delivers {ι : Type} (a b : ι) : List (Label ι) := List.flatten
  [[(a, .create), (a, .poll 0)], List.replicate 6 (a, .advance), [(b, .notifyOne)],
    List.replicate 8 (b, .advance)]

/-- The future of `a` is parked at a barrier of two, `b` arrives and releases it. -/
def Barrier.releases {ι : Type} (a b : ι) : List (Label ι) := List.flatten
  [[(a, .create), (a, .poll 0)], List.replicate 6 (a, .advance), [(b, .create), (b, .poll 0)],
    List.replicate 7 (b, .advance)]

/-- The closure of `a` panics while `b` is parked; `a` has popped `b` and has not signalled it. -/
def OnceCell.passesOn {ι : Type} (a b : ι) : List (Label ι ℕ) := List.flatten
  [[(a, .getOrInit false), (a, .advance), (a, .advance), (a, .advance), (b, .getOrInit false)],
    List.replicate 6 (b, .advance), [(a, .user .panic)], List.replicate 4 (a, .advance)]

/-- A push that its owner removed, two that were popped and signalled, and one that was popped and
whose signaler has still to write to the node. -/
theorem no_node_outlives_fates :
    (∃ (state : Semaphore.State (Fin 2) Unit) (account : Account (Fin 2)),
      Semaphore.Accounts .bits64 1 state account ∧ state.pc 1 = .idle ∧ account.now.pushed 1 = 1 ∧
      account.removed 1 0 = 1 ∧ Lifetimes Semaphore.chainOf Semaphore.endedAt state.waiters account)
      ∧
    (∃ (state : Notify.State (Fin 2)) (account : Account (Fin 2)),
      Notify.Accounts .bits64 state account ∧ account.popped 0 0 = 1 ∧ account.signalled 0 0 = 1 ∧
      Lifetimes Notify.chainOf Notify.endedAt state.waiters account) ∧
    (∃ (state : Barrier.State (Fin 2)) (account : Account (Fin 2)),
      Barrier.Accounts 32 2 state account ∧ account.popped 0 0 = 1 ∧ account.signalled 0 0 = 1 ∧
      Lifetimes Barrier.chainOf Barrier.endedAt state.waiters account) ∧
    (∃ (state : OnceCell.State (Fin 2) ℕ) (account : Account (Fin 2)),
      OnceCell.Accounts state account ∧ account.popped 1 0 = 1 ∧ account.signalled 1 0 = 0 ∧
      OnceCell.chainOf (state.pc 0) = [1] ∧
      Lifetimes OnceCell.chainOf OnceCell.endedAt state.waiters account) := by
  refine ⟨?_, ?_, ?_, ?_⟩
  · obtain ⟨state, account, reach, ended⟩ := System.exists_observedBy_of_run
      (Semaphore.machine (Fin 2) Unit .bits64 1) .new
      (accounting Semaphore.chainOf Semaphore.State.waiters Prod.fst)
      (fun _ _ next => decide (∀ party, next.requested party ≤ Semaphore.maxPermits .bits64))
      (fun state account => decide (state.pc 1 = .idle ∧ account.now.pushed 1 = 1 ∧
        account.removed 1 0 = 1))
      ⟨by decide, (), rfl⟩ (Semaphore.cancels 0 1) (by decide +kernel)
    obtain ⟨idle, pushed, removed⟩ := of_decide_eq_true ended
    have within : Semaphore.Accounts .bits64 1 state account := reach.mono fun _ _ _ =>
      of_decide_eq_true
    exact ⟨state, account, within, idle, pushed, removed, no_node_outlives.1 within⟩
  · obtain ⟨state, account, reach, ended⟩ :=
      System.exists_observed_of_run (Notify.machine (Fin 2) .bits64) .new
      (accounting Notify.chainOf Notify.State.waiters Prod.fst)
      (fun _ account => decide (account.popped 0 0 = 1 ∧ account.signalled 0 0 = 1)) rfl
        (Notify.delivers 0 1)
      (by decide +kernel)
    obtain ⟨popped, signalled⟩ := of_decide_eq_true ended
    exact ⟨state, account, reach, popped, signalled, no_node_outlives.2.1 reach⟩
  · obtain ⟨state, account, reach, ended⟩ :=
      System.exists_observed_of_run (Barrier.machine (Fin 2) 32 2) .new
      (accounting Barrier.chainOf Barrier.State.waiters Prod.fst)
      (fun _ account => decide (account.popped 0 0 = 1 ∧ account.signalled 0 0 = 1))
        ⟨by decide, rfl⟩
      (Barrier.releases 0 1) (by decide +kernel)
    obtain ⟨popped, signalled⟩ := of_decide_eq_true ended
    exact ⟨state, account, reach, popped, signalled, no_node_outlives.2.2.1 reach⟩
  · obtain ⟨state, account, reach, ended⟩ :=
      System.exists_observed_of_run (OnceCell.machine (Fin 2) ℕ) .new
      (accounting OnceCell.chainOf OnceCell.State.waiters Prod.fst)
      (fun state account => decide (account.popped 1 0 = 1 ∧ account.signalled 1 0 = 0 ∧
        OnceCell.chainOf (state.pc 0) = [1])) ⟨none, rfl⟩ (OnceCell.passesOn 0 1)
        (by decide +kernel)
    obtain ⟨popped, signalled, chain⟩ := of_decide_eq_true ended
    exact ⟨state, account, reach, popped, signalled, chain, no_node_outlives.2.2.2 reach⟩

end Xutex
