/-
**Atomic objects: what the calls of an object look like when each takes effect at once.**

The clients of an object see its calls and its answers. The atomic object applies an operation in
one step between the two. So the order of these steps is a sequential run with the same answers, in
which a call that was answered before another one was made comes before it: an implementation whose
histories are histories of the atomic object is linearizable.

* `AtomicObject.machine` — the atomic object of an operation.
* `step_call`, `step_act`, `step_answer` — its steps, as a simulation meets them.
-/

import Xutex.Concurrency.Runs

namespace Concurrency

/-- What the clients of an object see. -/
inductive AtomicObject.Event (ι Op Answer : Type)
  | call (party : ι) (op : Op)
  | answer (party : ι) (answer : Answer)
  deriving DecidableEq

/-- Where a party is in its call. -/
inductive AtomicObject.Phase (Op Answer : Type)
  | outside
  | called (op : Op)
  | answered (answer : Answer)

/-- An object, the calls that are being made of it, and what was seen so far. -/
structure AtomicObject (ι Value Op Answer : Type) where
  value : Value
  phase : ι → AtomicObject.Phase Op Answer
  history : List (AtomicObject.Event ι Op Answer)

namespace AtomicObject

inductive Label (ι Op : Type)
  | call (party : ι) (op : Op)
  /-- The operation takes effect. -/
  | act (party : ι)
  | answer (party : ι)

variable {ι Value Op Answer : Type} [DecidableEq ι] (apply : Value → Op → Value × Answer)

def step (state : AtomicObject ι Value Op Answer) : Label ι Op →
    Option (AtomicObject ι Value Op Answer)
  | .call party op =>
    match state.phase party with
    | .outside => some ⟨state.value, Function.update state.phase party (.called op),
      state.history ++ [.call party op]⟩
    | _ => none
  | .act party =>
    match state.phase party with
    | .called op =>
      let (value, answer) := apply state.value op
      some ⟨value, Function.update state.phase party (.answered answer), state.history⟩
    | _ => none
  | .answer party =>
    match state.phase party with
    | .answered answer =>
      some ⟨state.value, Function.update state.phase party .outside,
        state.history ++ [.answer party answer]⟩
    | _ => none

/-- **The atomic object**, with the values it can start with. -/
def machine (ι : Type) [DecidableEq ι] (apply : Value → Op → Value × Answer)
    (initial : Value → Prop) : System (AtomicObject ι Value Op Answer) (Label ι Op) where
  init state := initial state.value ∧ (∀ party, state.phase party = .outside) ∧ state.history = []
  step := step apply

variable {apply} {initial : Value → Prop} {state next : AtomicObject ι Value Op Answer} {party : ι}
  {op : Op} {answer : Answer}

theorem step_call (outside : state.phase party = .outside) (value : next.value = state.value)
    (phase : next.phase = Function.update state.phase party (.called op))
    (history : next.history = state.history ++ [.call party op]) :
    (machine ι apply initial).step state (.call party op) = some next := by
  simp only [machine, step, outside, ← value, ← phase, ← history]

theorem step_act (called : state.phase party = .called op)
    (value : (next.value, answer) = apply state.value op)
    (phase : next.phase = Function.update state.phase party (.answered answer))
    (history : next.history = state.history) :
    (machine ι apply initial).step state (.act party) = some next := by
  simp only [machine, step, called, ← value, ← phase, ← history]

theorem step_answer (answered : state.phase party = .answered answer)
    (value : next.value = state.value)
    (phase : next.phase = Function.update state.phase party .outside)
    (history : next.history = state.history ++ [.answer party answer]) :
    (machine ι apply initial).step state (.answer party) = some next := by
  simp only [machine, step, answered, ← value, ← phase, ← history]

end AtomicObject

end Concurrency
