/-
**Ranks: systems that come to an end.**

A step is progress when it changes the state. Where every step of a set of labels either changes
nothing or lowers a rank, a run of these labels is constant from some point on, whatever the order
of its steps, and it can be continued to a state in which none of them changes anything.

* `System.Progress` — the steps of the given labels that change the state.
* `wellFounded_progress` — **the ranking rule**; the rank has to fall only in states that satisfy an
  invariant.
* `eventually_constant`, `exists_end` — what it gives for infinite runs, and for the continuation of
  a run.
* `partyRank` — a rank for finitely many parties: first the work that is left to all of them and to
  what they share, then how many retries they are about to make. `partyRank_lt_of_work` and
  `partyRank_lt_of_retry` are its two rules: a party that goes on does a piece of work, or there are
  fewer retries to come.
-/

import Mathlib.Data.Prod.Lex
import Mathlib.Logic.Relation
import Mathlib.Order.WellFounded
import Xutex.Concurrency.Parties
import Xutex.Concurrency.Runs

set_option linter.unusedSectionVars false

namespace Concurrency

open Relation

namespace System

variable {State Label : Type*} {machine : System State Label} {internal : Label → Prop}
  {Holds : State → Prop}

variable (machine internal) in
/-- A step of one of the given labels changes the state. -/
def Progress (state next : State) : Prop :=
  next ≠ state ∧ ∃ label, internal label ∧ machine.step state label = some next

/-- **The ranking rule.** -/
theorem wellFounded_progress {α : Type*} [LT α] [WellFoundedLT α] (rank : State → α)
    (descends : ∀ state label next, Holds state → internal label →
      machine.step state label = some next → next = state ∨ rank next < rank state) :
    WellFounded fun next state => Holds state ∧ machine.Progress internal state next := by
  refine Subrelation.wf ?_ (InvImage.wf rank wellFounded_lt)
  rintro next state ⟨holds, changed, label, allowed, stepped⟩
  exact (descends state label next holds allowed stepped).resolve_left changed

section Ends

variable (founded : WellFounded fun next state => Holds state ∧
  machine.Progress internal state next)
  (kept : ∀ state next, Holds state → machine.Progress internal state next → Holds next)
include founded kept

/-- **A run that takes no other steps is constant from some point on.** -/
theorem eventually_constant (run : ℕ → State) (holds : Holds (run 0))
    (steps : ∀ k, run (k + 1) = run k ∨ machine.Progress internal (run k) (run (k + 1))) :
    ∃ k, ∀ m, k ≤ m → run m = run k := by
  have everywhere (k : ℕ) : Holds (run k) := by
    induction k with
    | zero => exact holds
    | succ k before =>
      rcases steps k with same | progress
      · rw [same]
        exact before
      · exact kept _ _ before progress
  -- the induction is on the state that the run has reached
  suffices ∀ state k, run k = state → ∃ k, ∀ m, k ≤ m → run m = run k from this (run 0) 0 rfl
  intro state
  induction state using founded.induction with
  | _ state later =>
    intro k here
    by_cases constant : ∀ m, k ≤ m → run m = run k
    · exact ⟨k, constant⟩
    · obtain ⟨m, after, changed⟩ : ∃ m, k ≤ m ∧ run m ≠ run k := by simpa using constant
      induction m, after using Nat.le_induction with
      | base => exact absurd rfl changed
      | succ m after before =>
        by_cases same : run m = run k
        · have progress := (steps m).resolve_left (fun stays => changed (stays.trans same))
          rw [same, here] at progress
          exact later (run (m + 1)) ⟨here ▸ everywhere k, progress⟩ (m + 1) rfl
        · exact before same

/-- **Some run leads to a state in which nothing changes any more.** -/
theorem exists_end (state : State) (holds : Holds state) :
    ∃ last, ReflTransGen (machine.Progress internal) state last ∧
      ∀ next, ¬machine.Progress internal last next := by
  induction state using founded.induction with
  | _ state later =>
    by_cases ended : ∃ next, machine.Progress internal state next
    · obtain ⟨next, progress⟩ := ended
      obtain ⟨last, run, stops⟩ := later next ⟨holds, progress⟩ (kept _ _ holds progress)
      exact ⟨last, .head progress run, stops⟩
    · exact ⟨state, .refl, fun next progress => ended ⟨next, progress⟩⟩

end Ends

end System

/-! ### Ranks of parties -/

section Parties

variable {ι : Type*} [Fintype ι] [DecidableEq ι] {cost cost' : ℕ} {work work' retries retries' : ι →
  ℕ}

/-- The work that is left, to the parties and to what they share; then the retries. -/
def partyRank (cost : ℕ) (work retries : ι → ℕ) :
    ℕ ×ₗ ℕ := toLex (cost + ∑ party, work party, ∑ party, retries party)

/-- **A party does a piece of work.** -/
theorem partyRank_lt_of_work (party : ι) (others : ∀ other, other ≠ party →
      work' other = work other) (less : cost' + work' party < cost + work party) :
    partyRank cost' work' retries' < partyRank cost work retries := by
  have exchange := sum_exchange party others
  refine Prod.Lex.toLex_lt_toLex.mpr (.inl ?_)
  show cost' + ∑ party, work' party < cost + ∑ party, work party
  omega

/-- **A retry.** -/
theorem partyRank_lt_of_retry (party : ι) (others : ∀ other, other ≠ party →
      work' other = work other)
    (same : cost' + work' party = cost + work party) (less : ∑ party, retries' party < ∑ party,
      retries party) :
    partyRank cost' work' retries' < partyRank cost work retries := by
  have exchange := sum_exchange party others
  refine Prod.Lex.toLex_lt_toLex.mpr (.inr ⟨?_, less⟩)
  show cost' + ∑ party, work' party = cost + ∑ party, work party
  omega

end Parties

end Concurrency
