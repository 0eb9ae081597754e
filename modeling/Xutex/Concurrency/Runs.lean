/-
**Labelled transition systems: runs, conditions on their steps, invariants and simulations.**

A `System` is a set of initial states and a partial step function: `step state label` is the state
after the step the label names, `none` when that step is not possible in `state`. A run takes one
step after another; which party moves and what it is asked to do is all in the label, so a run over
arbitrary labels is an arbitrary interleaving.

* `System.ReachableBy allowed` — the states of the runs every step of which is `allowed`. The
  condition reads the state before the step, the label and the state after it.
* `ReachableBy.invariant` — **the induction rule**: what holds initially and is kept by every
  allowed step holds in every state reached. The step may use that its source is itself reachable,
  so that invariants are stacked: a later one reads the earlier ones off the same run.
* `ReachableBy.map` — **the simulation rule**: a map of states under which every step is a step of
  another system (or changes nothing) maps reachable states to reachable states.
* `never` — the cases of an invariant that do not concern the program point a step leads to.
* `System.run` — the executable runs, for a Boolean check of the steps, and `run_reachableBy`,
  which turns a computed run into a reachable state.
-/

import Mathlib.Logic.Function.Basic
import Mathlib.Data.Option.Basic

namespace Concurrency

/-- A test that computes to `false` does not pass: what a program point that fails it would have to
satisfy. -/
theorem never {P : Prop} (passed : false = true) : P := Bool.noConfusion passed

/-- A transition system: the initial states and the step of every label, where it is possible. -/
structure System (State Label : Type*) where
  init : State → Prop
  step : State → Label → Option State

namespace System

variable {State Label : Type*} (machine : System State Label)

/-- The states reached by the runs all of whose steps are `allowed`. -/
inductive ReachableBy (allowed : State → Label → State → Prop) : State → Prop
  | start {state : State} (initial : machine.init state) : ReachableBy allowed state
  | step {state next : State} {label : Label} (before : ReachableBy allowed state)
      (stepped : machine.step state label = some next) (permitted : allowed state label next) :
      ReachableBy allowed next

/-- The states reached by any run. -/
abbrev Reachable (state : State) : Prop := machine.ReachableBy (fun _ _ _ => True) state

variable {machine} {allowed : State → Label → State → Prop}

/-- **The induction rule for runs.** -/
theorem ReachableBy.invariant (Holds : State → Prop)
    (initially : ∀ state, machine.init state → Holds state)
    (preserved : ∀ state label next, machine.ReachableBy allowed state → Holds state →
      machine.step state label = some next → allowed state label next → Holds next)
    {state : State} (reach : machine.ReachableBy allowed state) : Holds state := by
  induction reach with
  | start initial => exact initially _ initial
  | step before stepped permitted holds => exact preserved _ _ _ before holds stepped permitted

/-- A weaker condition on the steps reaches at least as much. -/
theorem ReachableBy.mono {weaker : State → Label → State → Prop}
    (implies : ∀ state label next, allowed state label next → weaker state label next)
    {state : State} (reach : machine.ReachableBy allowed state) :
    machine.ReachableBy weaker state := by
  induction reach with
  | start initial => exact .start initial
  | step _ stepped permitted before => exact .step before stepped (implies _ _ _ permitted)

/-- **The simulation rule.** A map of states that turns every step of one system into a step of
another, or into no change, maps what the first reaches into what the second reaches. -/
theorem ReachableBy.map {Target TargetLabel : Type*} {target : System Target TargetLabel}
    {targetAllowed : Target → TargetLabel → Target → Prop} (view : State → Target)
    (initially : ∀ state, machine.init state → target.init (view state))
    (simulated : ∀ state label next, machine.ReachableBy allowed state →
      machine.step state label = some next → allowed state label next →
      view next = view state ∨ ∃ targetLabel, target.step (view state) targetLabel =
      some (view next) ∧ targetAllowed (view state) targetLabel (view next))
    {state : State} (reach : machine.ReachableBy allowed state) :
    target.ReachableBy targetAllowed (view state) := by
  induction reach with
  | start initial => exact .start (initially _ initial)
  | step before stepped permitted mapped =>
    rcases simulated _ _ _ before stepped permitted with same | ⟨targetLabel, moved, fine⟩
    · rw [same]
      exact mapped
    · exact .step mapped moved fine

/-! ### Executable runs -/

/-- Take the steps of a list of labels, each passing `check`. -/
def run (machine : System State Label) (check : State → Label → State → Bool) :
    State → List Label → Option State
  | state, [] => some state
  | state, label :: rest =>
    match machine.step state label with
    | none => none
    | some next => if check state label next then run machine check next rest else none

/-- A run can be continued. -/
theorem run_append (check : State → Label → State → Bool) (state : State)
    (first second : List Label) : machine.run check state (first ++ second) =
      (machine.run check state first).bind fun middle => machine.run check middle second := by
  induction first generalizing state with
  | nil => rfl
  | cons label rest ih =>
    rw [List.cons_append, run, run]
    split
    · rfl
    · split
      · exact ih _
      · rfl

/-- A computed run reaches its last state. -/
theorem run_reachableBy {check : State → Label → State → Bool} :
    ∀ (labels : List Label) {state last : State},
      machine.ReachableBy (fun state label next => check state label next = true) state →
      machine.run check state labels = some last →
      machine.ReachableBy (fun state label next => check state label next = true) last
  | [], state, last, reach, ran => by
    cases ran
    exact reach
  | label :: rest, state, last, reach, ran => by
    rw [run] at ran
    split at ran
    · cases ran
    · rename_i next stepped
      split at ran
      · rename_i passed
        exact run_reachableBy rest (.step reach stepped passed) ran
      · cases ran

/-- **A reachable state by computation**: a run from an initial state whose last state passes a
Boolean test gives a reachable state that passes it. -/
theorem exists_reachableBy_of_run (machine : System State Label)
    (check : State → Label → State → Bool) (test : State → Bool) {state : State}
    (initial : machine.init state) (labels : List Label)
    (passes : (machine.run check state labels).any test = true) :
    ∃ last, machine.ReachableBy (fun state label next => check state label next = true) last ∧
      test last = true := by
  obtain ⟨last, ran, tested⟩ := (Option.any_eq_true _ _).mp passes
  exact ⟨last, run_reachableBy labels (.start initial) ran, tested⟩

/-- The same for a run without a condition on its steps. -/
theorem exists_reachable_of_run (machine : System State Label) (test : State → Bool) {state : State}
    (initial : machine.init state) (labels : List Label)
    (passes : (machine.run (fun _ _ _ => true) state labels).any test = true) :
    ∃ last, machine.Reachable last ∧ test last = true := by
  obtain ⟨last, reach, tested⟩ :=
    exists_reachableBy_of_run machine (fun _ _ _ => true) test initial labels passes
  exact ⟨last, reach.mono fun _ _ _ _ => trivial, tested⟩

end System

end Concurrency
