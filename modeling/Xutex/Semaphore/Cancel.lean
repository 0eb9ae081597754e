/-
**Dropping an acquisition future.**

`cancel_acquire` ends by waiting for a signal, on the assumption that a node marked
`SIGNAL_INIT_WAITING` that is not linked was popped by somebody who is about to signal it.
`marked_located` proves the assumption for the runs in which no poll panics on its request;
`marked_stranded` is the run in which one does: the node is marked, nobody has it, and the drop
spins for ever.

The other calls into foreign code between the mark and the push are those of the waker's `clone`, in
`register_unsync`; they are assumed not to panic.
-/

import Xutex.Semaphore.Waiting

set_option linter.unusedSectionVars false

namespace Xutex.Semaphore

open Concurrency Discipline

variable {ι γ : Type} [DecidableEq ι] [DecidableEq γ]

/-- The party owns a future that is not being polled: it is at rest, or it is being dropped and its
node was not unlinked by the drop. -/
def unpolledAt : Pc ι γ → Bool
  | .future | .dropLoad | .cancelLock | .cancelRemove | .cancelWait => true
  | .unlock .cancelMissing | .unlockStore .cancelMissing => true
  | _ => false

/-- Such a future has given a marked node away. -/
theorem waits_of_unpolled {pc : Pc ι γ} (unpolled : unpolledAt pc = true) :
    waitsAt pc .initWaiting = true := by
  unfold unpolledAt at unpolled
  split at unpolled <;> first | rfl | cases unpolled

/-- **A marked node is linked, or popped and about to be signalled**, once its future is not being
polled: for every request, every history of polls and every interleaving, in the runs in which the
second `try_acquire` of a poll on a request above `MAX_PERMITS` finds the semaphore closed or finds
its permits. -/
theorem marked_located {width : PointerWidth} {n : ℕ} {state : State ι γ} {party : ι}
    (reach : BoundedRuns width n state) (unpolled : unpolledAt (state.pc party) = true)
    (marked : (state.signal party).value = .initWaiting) :
    party ∈ state.queue.entries ∨ ∃ signaler, party ∈ chainOf (state.pc signaler) := by
  have waiting := waiting_of_reachable reach
  refine waiting.placed.located party ?_ ?_
  · show waitsAt (state.pc party) (state.signal party).value = true
    rw [marked]
    exact waits_of_unpolled unpolled
  · show ¬(state.signal party).value.isFinal = true
    rw [marked]
    exact Bool.false_ne_true

/-- One of two permits is taken; a future for `2 ^ 61` permits finds the semaphore closed, another
one for two permits is queued and then dropped up to the point where it takes the lock of the
queue. -/
def closedOrQueued {ι : Type} (a b c : ι) : List (Label ι Unit) :=
  [(a, .tryAcquire ⟨(), 1⟩), (a, .advance), (a, .advance), (b, .create ⟨(), 2⟩), (b, .poll 0)] ++
  List.replicate 6 (b, .advance) ++ [(b, .drop), (b, .advance), (a, .close), (a, .advance),
    (c, .create ⟨(), 2 ^ 61⟩), (c, .poll 0), (c, .advance), (c, .advance)]

/-- The node of the dropped future is marked, and linked. -/
theorem marked_located_queued : ∃ state : State (Fin 3) Unit, BoundedRuns .bits64 2 state ∧
    state.pc 1 = .cancelLock ∧ (state.signal 1).value = .initWaiting ∧
    state.outcome 2 = some (.refused .closed) ∧
    (1 ∈ state.queue.entries ∨ ∃ signaler, 1 ∈ chainOf (state.pc signaler)) := by
  obtain ⟨state, reach, ended⟩ := System.exists_reachableBy_of_run (machine (Fin 3) Unit .bits64 2)
    (fun state label _ => bounded .bits64 state label)
    (fun state => decide (state.pc 1 = .cancelLock ∧ (state.signal 1).value = .initWaiting ∧
      state.outcome 2 = some (.refused .closed)))
    ⟨by decide, (), rfl⟩ (closedOrQueued 0 1 2) (by decide +kernel)
  obtain ⟨cancelling, marked, refused⟩ := of_decide_eq_true ended
  exact ⟨state, reach, cancelling, marked, refused,
    marked_located reach (by rw [cancelling]; rfl) marked⟩

/-- **A marked node that nobody has.** A future for `2 ^ 61` permits, one more than `MAX_PERMITS`,
is polled on an open semaphore of two permits. The poll panics after it has marked the node; the
future is at rest, nothing is linked and nobody has anything to signal. -/
theorem marked_stranded : ∃ state : State (Fin 1) Unit,
    (machine (Fin 1) Unit .bits64 2).Reachable state ∧ state.pc 0 = .future ∧
    state.outcome 0 = some .requestTooLarge ∧ (state.signal 0).value = .initWaiting ∧
    ¬(0 ∈ state.queue.entries ∨ ∃ signaler, 0 ∈ chainOf (state.pc signaler)) := by
  obtain ⟨state, reach, ended⟩ := System.exists_reachable_of_run (machine (Fin 1) Unit .bits64 2)
    (fun state => decide (state.pc 0 = .future ∧ state.outcome 0 = some .requestTooLarge ∧
      (state.signal 0).value = .initWaiting ∧
      ¬(0 ∈ state.queue.entries ∨ ∃ signaler, 0 ∈ chainOf (state.pc signaler))))
    ⟨by decide, (), rfl⟩
    [(0, .create ⟨(), 2 ^ 61⟩), (0, .poll 0), (0, .advance), (0, .advance)] (by decide +kernel)
  exact ⟨state, reach, of_decide_eq_true ended⟩

end Xutex.Semaphore
