/-
**Observers: a history beside a run.**

Some properties speak of what happened earlier in a run: who came first, how often something was
done. An observer keeps such a history beside the state and never interferes with the system.

* `System.observed` — the system with a history that `observe` extends at every step.
* `ReachableBy.unobserved` — **observing changes nothing**: the states reached under observation are
  reached without.
* `ReachableBy.observed` — the induction rule for a state and its history.
-/

import Xutex.Concurrency.Runs

namespace Concurrency.System

variable {State Label History : Type*}

/-- The system together with the history an observer keeps of its steps. -/
def observed (machine : System State Label) (start : History)
    (observe : History → State → Label → State → History) : System (State × History) Label where
  init pair := machine.init pair.1 ∧ pair.2 = start
  step pair label := (machine.step pair.1 label).map fun next =>
    (next, observe pair.2 pair.1 label next)

variable {machine : System State Label} {start : History} {observe : History → State → Label →
  State → History} {allowed : State → Label → State → Prop}

/-- The observed runs all of whose steps are `allowed`. -/
abbrev ObservedBy (machine : System State Label) (start : History)
    (observe : History → State → Label → State → History) (allowed : State → Label → State → Prop)
    (state : State) (history : History) : Prop :=
  (machine.observed start observe).ReachableBy (fun pair label next => allowed pair.1 label next.1)
    (state, history)

theorem observed_step {pair next : State × History} {label : Label}
    (stepped : (machine.observed start observe).step pair label = some next) :
    machine.step pair.1 label = some next.1 ∧ next.2 = observe pair.2 pair.1 label next.1 := by
  obtain ⟨after, moved, rfl⟩ := Option.map_eq_some_iff.mp stepped
  exact ⟨moved, rfl⟩

/-- What is reached under observation is reached. -/
theorem ReachableBy.unobserved {state : State} {history : History}
    (reach : machine.ObservedBy start observe allowed state history) :
    machine.ReachableBy allowed state := by
  have initially (pair : State × History) (initial : (machine.observed start observe).init pair) :
      machine.init pair.1 := initial.1
  exact reach.map Prod.fst initially fun _ label _ _ stepped permitted =>
    .inr ⟨label, (observed_step stepped).1, permitted⟩

/-- **The induction rule for a state and its history.** -/
theorem ReachableBy.observed (Holds : State → History → Prop)
    (initially : ∀ state, machine.init state → Holds state start)
    (preserved : ∀ state history label next, machine.ReachableBy allowed state →
      Holds state history → machine.step state label = some next → allowed state label next →
      Holds next (observe history state label next))
    {state : State} {history : History}
    (reach : machine.ObservedBy start observe allowed state history) : Holds state history := by
  refine reach.invariant (fun pair => Holds pair.1 pair.2) ?_ ?_
  · rintro ⟨state, _⟩ ⟨initial, rfl⟩
    exact initially state initial
  · rintro ⟨state, history⟩ label ⟨next, seen⟩ before holds stepped permitted
    obtain ⟨moved, extended⟩ := observed_step stepped
    show Holds next seen
    rw [show seen = observe history state label next from extended]
    exact preserved state history label next before.unobserved holds moved permitted

/-- A reachable state and its history by computation. -/
theorem exists_observedBy_of_run (machine : System State Label) (start : History)
    (observe : History → State → Label → State → History) (check : State → Label → State → Bool)
    (test : State → History → Bool) {state : State} (initial : machine.init state)
    (labels : List Label)
    (passes : ((machine.observed start observe).run
      (fun pair label next => check pair.1 label next.1) (state, start)
      labels).any (fun pair => test pair.1 pair.2) = true) :
    ∃ last history, machine.ObservedBy start observe
      (fun state label next => check state label next = true) last
      history ∧ test last history = true := by
  have started : (machine.observed start observe).init (state, start) := ⟨initial, rfl⟩
  obtain ⟨⟨last, history⟩, reach, tested⟩ :=
    exists_reachableBy_of_run (machine.observed start observe)
    (fun pair label next => check pair.1 label next.1) (fun pair => test pair.1 pair.2)
      started labels passes
  exact ⟨last, history, reach, tested⟩

/-- The same for a run without a condition on its steps. -/
theorem exists_observed_of_run (machine : System State Label) (start : History)
    (observe : History → State → Label → State → History) (test : State → History → Bool)
    {state : State} (initial : machine.init state) (labels : List Label)
    (passes : ((machine.observed start observe).run (fun _ _ _ => true) (state, start) labels).any
      (fun pair => test pair.1 pair.2) = true) :
    ∃ last history, machine.ObservedBy start observe (fun _ _ _ => True) last history ∧
      test last history = true := by
  obtain ⟨last, history, reach, tested⟩ :=
    exists_observedBy_of_run machine start observe (fun _ _ _ => true) test initial labels passes
  exact ⟨last, history, reach.mono fun _ _ _ _ => trivial, tested⟩

end Concurrency.System
