/-
**The semaphore serves its waiters in the order they came.**

A request gets its permits in one of three ways: by the CAS of `try_acquire`, by the CAS of
`enqueue_or_acquire` under the tag-lock of an empty queue, or by being popped by a drain. `Obtains`
names the step and the party. An observer stamps every node when it is linked (`Passage`), and the
queue is in the order of the stamps (`ordered_of_observed`).

* `first_come_first_served` — **strict order**, in every run, panics and requests of every size
  included: who obtains permits while another node stays linked was itself linked before that node;
  the nodes that one drain pops were linked in the order in which it serves them; and while a node
  is linked no step of `try_acquire` or `enqueue_or_acquire` takes a permit from the pool.
-/

import Xutex.Concurrency.Observers
import Xutex.Core.Passage
import Xutex.Semaphore.Linked

set_option linter.unusedSectionVars false

namespace Xutex.Semaphore

open Concurrency Discipline

variable {ι γ : Type} [DecidableEq ι] [DecidableEq γ]

/-! ### The observed semaphore -/

/-- What the observer of the nodes writes down. -/
def passing (passage : Passage ι) (state : State ι γ) (label : Label ι γ) (next : State ι γ) :
    Passage ι :=
  passage.record chainOf state.waiters next.waiters label.1

/-- The states and the passages of the nodes in any run. -/
abbrev Observed (width : PointerWidth) (n : ℕ) (state : State ι γ) (passage : Passage ι) : Prop :=
  (machine ι γ width n).ObservedBy .new passing (fun _ _ _ => True) state passage

/-- **The step gives `node` its permits.** -/
inductive Obtains (state : State ι γ) : Label ι γ → ι → Prop
  | tryAcquire {party : ι} {attempt : Attempt} {cur : ℕ}
    (source : state.pc party = .tryCas attempt cur)
      (same : state.pool = cur) : Obtains state (party, .advance) party
  | enqueueOrAcquire {party : ι} {mode : Mode} {cur : ℕ}
    (source : state.pc party = .enqueueCas mode cur)
      (same : state.pool = cur) : Obtains state (party, .advance) party
  | drain {party node : ι} {after : After γ} {available : ℕ}
      (source : state.pc party = .drainServe after available)
      (popped : node ∈ (serve state.queue.entries state.signal available).chain) :
      Obtains state (party, .advance) node

/-- The points of `try_acquire` and of `enqueue_or_acquire`. -/
def acquiresAt : Pc ι γ → Bool
  | .tryLoad _ | .tryCas _ _ => true
  | .enqueueLock _ | .enqueueFlag _ | .enqueueCas _ _ | .enqueuePush _ => true
  | _ => false

/-- **First come, first served.** -/
structure Fifo (width : PointerWidth) (state : State ι γ) (passage : Passage ι) : Prop where
  order : ∀ {label : Label ι γ} {next : State ι γ} {waiting party : ι}, step width state label =
    some next →
    Obtains state label party → waiting ∈ state.queue.entries → waiting ∈ next.queue.entries →
    party ∈ state.queue.entries ∧ passage.stamp party < passage.stamp waiting
  /-- Those whom one drain serves are popped, and signalled, in the order they came. -/
  chain : ∀ {party : ι} {after : After γ} {available : ℕ}, state.pc party =
    .drainServe after available → (serve state.queue.entries state.signal available).chain.Pairwise
      fun first second => passage.stamp first < passage.stamp second
  pool : ∀ {party : ι} {next : State ι γ}, state.queue.entries ≠ [] →
    acquiresAt (state.pc party) = true →
    step width state (party, .advance) = some next → permits next.pool = permits state.pool

section Order

variable {width : PointerWidth} {n : ℕ} {state next : State ι γ} {passage : Passage ι} {party : ι}

theorem ordered_of_observed (reach : Observed width n state passage) :
    Ordered (state.masked width) passage := by
  refine reach.observed (fun state passage => Ordered (state.masked width) passage) ?_ ?_
  · rintro _ ⟨-, kind, rfl⟩
    exact .new rfl
  · intro state passage label next before ordered stepped _
    have linked := linked_of_reachable before
    obtain ⟨point, moves⟩ := step_masked linked stepped
    have recorded : Ordered (next.masked width)
        (passage.record masked.chain (state.masked width) (next.masked width) label.1) :=
      ordered.step linked.kept moves
    exact recorded

/-- While a node is linked, the CAS of `try_acquire` fails: it has read a word without the flag. -/
theorem Linked.tryCas_fails (linked : Linked width state) {attempt : Attempt} {cur : ℕ}
    (source : state.pc party = .tryCas attempt cur) (nonempty : state.queue.entries ≠ []) :
    state.pool ≠ cur := by
  have guard := linked.guards party
  rw [source] at guard
  rintro rfl
  have flag := linked.flagged nonempty
  rw [guard.2.1] at flag
  cases flag

/-- The CAS of `enqueue_or_acquire` is made on an empty queue. -/
theorem Linked.enqueueCas_empty (linked : Linked width state) {mode : Mode} {cur : ℕ}
    (source : state.pc party = .enqueueCas mode cur) : state.queue.entries = [] := by
  have guard := linked.guards party
  rw [source] at guard
  exact guard.2.2.2.2

theorem Linked.takes_nothing (linked : Linked width state) (nonempty : state.queue.entries ≠ [])
    (acquires : acquiresAt (state.pc party) = true)
    (stepped : advance width state party = some next) : permits next.pool = permits state.pool := by
  have shared := advance_shared stepped
  rw [shared.pool]
  cases source : state.pc party <;> simp only [source, acquiresAt, Bool.false_eq_true] at acquires
  case tryLoad | enqueueLock | enqueuePush => rfl
  case tryCas attempt cur => rw [poolAfter, if_neg (linked.tryCas_fails source nonempty)]
  case enqueueFlag => exact setQueue_permits
  case enqueueCas mode cur => exact absurd (linked.enqueueCas_empty source) nonempty

/-- **First come, first served**, in every run. -/
theorem first_come_first_served (reach : Observed width n state passage) :
    Fifo width state passage where
  order {label next waiting party} stepped obtains queued still := by
    have linked := linked_of_reachable reach.unobserved
    have nonempty : state.queue.entries ≠ [] := List.ne_nil_of_mem queued
    cases obtains with
    | tryAcquire source same => exact absurd same (linked.tryCas_fails source nonempty)
    | enqueueOrAcquire source same => exact absurd (linked.enqueueCas_empty source) nonempty
    | @drain server _ after available source popped =>
      have shared := advance_shared (show advance width state server = some next from stepped)
      rw [shared.queue, source] at still
      have front := serve_entries state.queue.entries state.signal available
      have ordered : (state.queue.entries).Pairwise _ := (ordered_of_observed reach).ordered
      rw [front, List.pairwise_append] at ordered
      refine ⟨?_, ordered.2.2 party popped waiting still⟩
      rw [front]
      exact List.mem_append_left _ popped
  chain {party after available} _ := by
    have ordered : (state.queue.entries).Pairwise _ := (ordered_of_observed reach).ordered
    rw [serve_entries state.queue.entries state.signal available, List.pairwise_append] at ordered
    exact ordered.1
  pool nonempty acquires stepped :=
    (linked_of_reachable reach.unobserved).takes_nothing nonempty acquires stepped

end Order

/-- `a` holds the only permit, `b` and then `c` wait for one; `a` drops it and is about to serve the
queue. -/
def servedInTurn {ι : Type} (a b c : ι) : List (Label ι Unit) := List.flatten
  [[(a, .tryAcquire ⟨(), 1⟩), (a, .advance), (a, .advance)],
    [(b, .create ⟨(), 1⟩), (b, .poll 0)], List.replicate 6 (b, .advance),
    [(c, .create ⟨(), 1⟩), (c, .poll 0)], List.replicate 6 (c, .advance),
    [(a, .dropPermit ⟨(), 1⟩)], List.replicate 4 (a, .advance)]

/-- The one that is served came before the one that stays. -/
theorem first_come_first_served_inTurn :
    ∃ (state next : State (Fin 3) Unit) (passage : Passage (Fin 3)),
    Observed .bits64 1 state passage ∧ step .bits64 state (0, .advance) = some next ∧
    Obtains state (0, .advance) 1 ∧ state.queue.entries = [1, 2] ∧ next.queue.entries = [2] ∧
    passage.stamp 1 < passage.stamp 2 := by
  obtain ⟨state, passage, reach, ended⟩ :=
    System.exists_observed_of_run (machine (Fin 3) Unit .bits64 1) .new passing
    (fun state _ => decide (state.pc 0 = .drainServe .done 1 ∧ state.queue.entries = [1, 2] ∧
      (serve state.queue.entries state.signal 1).chain = [1] ∧
      (serve state.queue.entries state.signal 1).rest = [2])) ⟨by decide, (), rfl⟩
      (servedInTurn 0 1 2) (by decide +kernel)
  obtain ⟨source, queued, chain, rest⟩ := of_decide_eq_true ended
  have stepped : step .bits64 state (0, .advance) = some (drainServe state 0 .done 1) := by
    simp [step, advance, source]
  have obtains : Obtains state (0, .advance) 1 := .drain source (by simp [chain])
  have left : (drainServe state 0 .done 1).queue.entries = [2] := rest
  refine ⟨state, _, passage, reach, stepped, obtains, queued, left, ?_⟩
  exact ((first_come_first_served reach).order stepped obtains (by simp [queued])
    (by simp [left])).2

end Xutex.Semaphore
