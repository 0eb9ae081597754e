/-
**Waiters of a queue: what every primitive built on `WaitQueue` keeps.**

The semaphore, the notifier, the barrier and the once-cell park their callers the same way: a caller
links its node under the tag-lock, a signaler pops nodes under the tag-lock into a chain, unlocks,
and then signals the chain node by node. What differs is the state word that decides who parks and
who pops. This module says the common part once.

* `Waiters` — the queue, the nodes and the program points, as far as waiting is concerned.
* `Discipline` — what a primitive declares about its program points: the chain a signaler still has
  to signal, whether the node of a party is given away, and whether the party holds the tag-lock.
* `Effect` — **the eight things a step can do**: touch only its own node, take or give back the
  tag-lock, link or unlink its own node, pop nodes, signal one, take its own signalled node back.
* `Kept.step` — **every effect keeps the discipline**: each node given away and not yet signalled is
  in the queue or in exactly one chain, and the tag-lock has the one holder whose program point says
  so.

A primitive proves once that each of its steps has an effect, and has these invariants on every run.
-/

import Xutex.Concurrency.Handoff
import Xutex.Core.Signal
import Xutex.Core.WaitQueue

set_option linter.unusedSectionVars false

namespace Xutex

open Concurrency

/-- The part of a primitive's state that waiting is about. -/
structure Waiters (ι Pc : Type) where
  queue : WaitQueue ι
  signal : ι → Signal
  pc : ι → Pc

/-- What a primitive declares about its program points. -/
structure Discipline (ι Pc : Type) where
  /-- The popped nodes the party still has to signal. -/
  chain : Pc → List ι
  /-- The party's node is linked, popped, or signalled and not yet taken back; for a future between
  two polls this is read off the value of the node. -/
  waits : Pc → SignalValue → Bool
  /-- The party holds the tag-lock. -/
  locked : Pc → Bool
  /-- The value of a node that is not given away, where the code relies on it. -/
  own : Pc → Option SignalValue
  /-- The values the primitive signals its waiters with. -/
  signals : SignalValue → Bool
  signalsFinal : ∀ {signal}, signals signal = true → signal.isFinal = true
  /-- Being signalled does not end a wait. -/
  signalledWaits : ∀ {pc value signal}, waits pc value = true → signals signal = true →
    waits pc signal = true
  /-- A signaler's own node is not given away. -/
  signalerFree : ∀ {pc} (value : SignalValue), chain pc ≠ [] → waits pc value = false
  ownFree : ∀ {pc value} (other : SignalValue), own pc = some value → waits pc other = false

namespace Discipline

variable {ι Pc : Type} [DecidableEq ι] (discipline : Discipline ι Pc)

/-- The value of a party's node. -/
abbrev valueOf (waiters : Waiters ι Pc) (party : ι) : SignalValue := (waiters.signal party).value

/-- The node of `party` is given away. -/
abbrev Waits (waiters : Waiters ι Pc) (party : ι) : Prop :=
  discipline.waits (waiters.pc party) (valueOf waiters party) = true

/-- The hand-off of the nodes. -/
def nodes (waiters : Waiters ι Pc) : Nodes ι where
  queue := waiters.queue.entries
  chain party := discipline.chain (waiters.pc party)
  waiting party := discipline.Waits waiters party
  signalled party := (valueOf waiters party).isFinal = true

/-- **The invariant of waiting.** -/
structure Kept (waiters : Waiters ι Pc) : Prop where
  placed : Placed (discipline.nodes waiters)
  lock : ∀ party, discipline.locked (waiters.pc party) = true ↔ waiters.queue.holder = some party
  owned : ∀ party value, discipline.own (waiters.pc party) = some value →
    valueOf waiters party = value
  signalled : ∀ party, discipline.Waits waiters party → (valueOf waiters party).isFinal = true →
    discipline.signals (valueOf waiters party) = true

/-! ### What a step can do -/

section Effect

variable (before after : Waiters ι Pc) (party : ι) (pc pc' : Pc)

/-- The step from `pc` to `pc'` gives no node away, takes none back and signals none. -/
structure Undisturbed : Prop where
  chain : discipline.chain pc' = discipline.chain pc
  values : ∀ other, other ≠ party → valueOf after other = valueOf before other
  waits : discipline.waits pc' (valueOf after party) = discipline.waits pc (valueOf before party)
  final : discipline.waits pc (valueOf before party) = true →
    valueOf after party = valueOf before party ∨
      ((valueOf before party).isFinal = false ∧ (valueOf after party).isFinal = false)

/-- **What a step of `party` from `pc` to `pc'` does to the waiters.** -/
inductive Effect : Prop
  /-- Work on the state word or on the party's own node. -/
  | own (queue : after.queue = before.queue) (locked : discipline.locked pc' = discipline.locked pc)
      (quiet : discipline.Undisturbed before after party pc pc')
  /-- `WaitQueue::lock`. -/
  | acquire (free : before.queue.holder = none)
      (queue : after.queue = ⟨some party, before.queue.entries⟩)
      (locked : discipline.locked pc' = true)
      (quiet : discipline.Undisturbed before after party pc pc')
  /-- The last store of `LockedQueue::unlock`. -/
  | release (queue : after.queue = before.queue.unlock) (held : discipline.locked pc = true)
      (locked : discipline.locked pc' = false)
      (quiet : discipline.Undisturbed before after party pc pc')
  /-- `SignalQueue::push` of the party's own node. -/
  | push (queue : after.queue = before.queue.push party)
      (locked : discipline.locked pc' = discipline.locked pc)
      (chain : discipline.chain pc' = discipline.chain pc)
      (values : ∀ other, other ≠ party → valueOf after other = valueOf before other)
      (fresh : discipline.waits pc (valueOf before party) = false)
      (waits : discipline.waits pc' (valueOf after party) = true)
      (unsignalled : (valueOf after party).isFinal = false)
  /-- `SignalQueue::pop` of the front nodes `taken`. -/
  | pop (taken rest : List ι) (front : before.queue.entries = taken ++ rest)
      (queue : after.queue = before.queue.leave rest)
      (locked : discipline.locked pc' = discipline.locked pc)
      (chain : discipline.chain pc' = discipline.chain pc ++ taken)
      (values : ∀ other, valueOf after other = valueOf before other)
      (waits : discipline.waits pc' (valueOf before party) =
        discipline.waits pc (valueOf before party))
  /-- `SignalQueue::remove` of the party's own node, found in the queue. -/
  | remove (member : party ∈ before.queue.entries) (queue : after.queue = before.queue.remove party)
      (locked : discipline.locked pc' = discipline.locked pc)
      (chain : discipline.chain pc' = discipline.chain pc)
      (values : ∀ other, other ≠ party → valueOf after other = valueOf before other)
      (gone : discipline.waits pc' (valueOf after party) = false)
  /-- The value store of `signal_node`. -/
  | publish (node : ι) (signal : SignalValue) (kind : discipline.signals signal = true)
      (queue : after.queue = before.queue)
      (locked : discipline.locked pc' = discipline.locked pc)
      (chain : discipline.chain pc = node :: discipline.chain pc')
      (value : valueOf after node = signal)
      (values : ∀ other, other ≠ node → valueOf after other = valueOf before other)
      (free : discipline.waits pc' (valueOf before party) = false)
  /-- The party reads the final value of its own node and takes the node back. -/
  | consume (queue : after.queue = before.queue)
      (locked : discipline.locked pc' = discipline.locked pc)
      (chain : discipline.chain pc' = discipline.chain pc)
      (values : ∀ other, other ≠ party → valueOf after other = valueOf before other)
      (waited : discipline.waits pc (valueOf before party) = true)
      (final : (valueOf before party).isFinal = true)
      (gone : discipline.waits pc' (valueOf after party) = false)

end Effect

/-- **A step of `party`**: it moves its own program counter, with one of the effects. -/
structure Moves (before after : Waiters ι Pc) (party : ι) (pc pc' : Pc) : Prop where
  source : before.pc party = pc
  target : after.pc = Function.update before.pc party pc'
  owned : ∀ value, discipline.own pc' = some value → valueOf after party = value ∨
    (discipline.own pc = some value ∧ valueOf after party = valueOf before party)
  effect : discipline.Effect before after party pc pc'

/-! ### Every effect keeps the invariant -/

variable {discipline} {before after : Waiters ι Pc} {party : ι} {pc pc' : Pc}

section

variable (moves : discipline.Moves before after party pc pc')
include moves

theorem Moves.self : after.pc party = pc' := by
  rw [moves.target, Function.update_self]

theorem Moves.rest {other : ι} (different : other ≠ party) : after.pc other = before.pc other := by
  rw [moves.target, Function.update_of_ne different]

/-- Who waits, when only `party` moved and no value of another party changed. -/
theorem Moves.waits_iff
    (values : ∀ other, other ≠ party → valueOf after other = valueOf before other)
    (self : discipline.waits pc' (valueOf after party) = discipline.waits pc (valueOf before party))
    (other : ι) : discipline.Waits after other ↔ discipline.Waits before other := by
  by_cases same : other = party
  · subst same
    rw [Waits, moves.self, self, ← moves.source]
  · rw [Waits, moves.rest same, values other same]

/-- Who waits, when `party` took its node back. -/
theorem Moves.waits_except
    (values : ∀ other, other ≠ party → valueOf after other = valueOf before other)
    (gone : discipline.waits pc' (valueOf after party) = false) (other : ι) :
    discipline.Waits after other ↔ discipline.Waits before other ∧ other ≠ party := by
  by_cases same : other = party
  · subst same
    simp [Waits, moves.self, gone]
  · simp [Waits, moves.rest same, values other same, same]

theorem Moves.chain_eq (self : discipline.chain pc' = discipline.chain pc) (other : ι) :
    discipline.chain (after.pc other) = discipline.chain (before.pc other) := by
  by_cases same : other = party
  · rw [same, moves.self, self, moves.source]
  · rw [moves.rest same]

/-- An undisturbed step that leaves the linked nodes alone. -/
theorem Moves.placed_undisturbed (placed : Placed (discipline.nodes before))
    (entries : after.queue.entries = before.queue.entries)
    (quiet : discipline.Undisturbed before after party pc pc') :
    Placed (discipline.nodes after) := by
  refine placed.frame entries (moves.chain_eq quiet.chain)
    (moves.waits_iff quiet.values quiet.waits) ?_
  intro other waits
  show (valueOf after other).isFinal = true ↔ (valueOf before other).isFinal = true
  by_cases same : other = party
  · subst same
    rcases quiet.final (moves.source ▸ waits) with kept | ⟨first, second⟩
    · rw [kept]
    · rw [first, second]
  · rw [quiet.values other same]

end

/-- The node a signaler publishes is waiting, and not the signaler's own. -/
theorem Kept.publishes (kept : discipline.Kept before) (source : before.pc party = pc) {node : ι}
    {rest : List ι}
    (chain : discipline.chain pc = node :: rest) :
    node ≠ party ∧ discipline.Waits before node ∧ (valueOf before node).isFinal = false ∧
      node ∉ before.queue.entries := by
  have member : node ∈ discipline.chain (before.pc party) := by
    rw [source, chain]
    exact List.mem_cons_self
  obtain ⟨waits, unsignalled, apart⟩ := kept.placed.popped party node member
  refine ⟨?_, waits, by simpa [nodes] using unsignalled, apart⟩
  rintro rfl
  have free := discipline.signalerFree (valueOf before node) (List.ne_nil_of_mem member)
  have waits : discipline.waits (before.pc node) (valueOf before node) = true := waits
  rw [free] at waits
  cases waits

section

variable (kept : discipline.Kept before) (moves : discipline.Moves before after party pc pc')
include kept moves

/-- Every effect keeps every node in its place. -/
theorem Kept.placed_step : Placed (discipline.nodes after) := by
  have placed := kept.placed
  cases moves.effect with
  | own queue locked quiet => exact moves.placed_undisturbed placed (by rw [queue]) quiet
  | acquire free queue locked quiet => exact moves.placed_undisturbed placed (by rw [queue]) quiet
  | release queue held locked quiet =>
    exact moves.placed_undisturbed placed (by rw [queue]; rfl) quiet
  | push queue locked chain values fresh waits unsignalled =>
    refine placed.push party (by simp [nodes, Waits, moves.source, fresh]) (by simp [nodes, queue])
      (moves.chain_eq chain) ?_ (by simp [nodes, unsignalled]) ?_
    · intro other
      show discipline.Waits after other ↔ discipline.Waits before other ∨ other = party
      by_cases same : other = party
      · subst same
        simp [Waits, moves.self, waits]
      · simp [Waits, moves.rest same, values other same, same]
    · intro other different _
      simp [nodes, values other different]
  | pop taken left front queue locked chain values waits =>
    refine placed.pop party taken (by simp [nodes, queue, front])
      (by simp [nodes, moves.self, moves.source, chain]) ?_
      (moves.waits_iff (fun other _ => values other) (by rw [values, waits])) ?_
    · intro other different
      simp [nodes, moves.rest different]
    · intro other _
      simp [nodes, values other]
  | remove member queue locked chain values gone =>
    refine placed.remove party member (by simp [nodes, queue]) (moves.chain_eq chain)
      (moves.waits_except values gone) ?_
    intro other different _
    simp [nodes, values other different]
  | publish node signal kind queue locked chain value values free =>
    obtain ⟨apart, waited, -, -⟩ := kept.publishes moves.source chain
    refine placed.publish party node (by simp [nodes, moves.self, moves.source, chain])
      (by simp [nodes, queue]) ?_ ?_ (by simp [nodes, value, discipline.signalsFinal kind]) ?_
    · intro other different
      simp [nodes, moves.rest different]
    · intro other
      show discipline.Waits after other ↔ discipline.Waits before other
      by_cases isNode : other = node
      · subst isNode
        have still := discipline.signalledWaits waited kind
        simp [Waits, moves.rest apart, value, still, waited]
      · by_cases same : other = party
        · subst same
          have busy := discipline.signalerFree (valueOf before other)
            (show discipline.chain pc ≠ [] by simp [chain])
          simp [Waits, moves.self, moves.source, values other isNode, free, busy]
        · simp [Waits, moves.rest same, values other isNode]
    · intro other different _
      simp [nodes, values other different]
  | consume queue locked chain values waited final gone =>
    refine placed.consume party final (by simp [nodes, queue]) (moves.chain_eq chain)
      (moves.waits_except values gone) ?_
    intro other different _
    simp [nodes, values other different]

/-- The holder of the tag-lock, when the moving party neither takes nor gives it. -/
theorem Kept.lock_same (holder : after.queue.holder = before.queue.holder)
    (self : discipline.locked pc' = discipline.locked pc) (other : ι) :
    discipline.locked (after.pc other) = true ↔ after.queue.holder = some other := by
  rw [holder, ← kept.lock other]
  by_cases same : other = party
  · rw [same, moves.self, self, moves.source]
  · rw [moves.rest same]

theorem Kept.lock_step (party : ι) :
    discipline.locked (after.pc party) = true ↔ after.queue.holder = some party := by
  revert party
  cases moves.effect with
  | own queue locked quiet => exact kept.lock_same moves (by rw [queue]) locked
  | acquire free queue locked quiet =>
    intro other
    by_cases same : other = party
    · subst same
      simp [moves.self, locked, queue]
    · have unlocked := kept.lock other
      rw [free] at unlocked
      simpa [moves.rest same, queue, Ne.symm same] using unlocked
  | release queue held locked quiet =>
    intro other
    by_cases same : other = party
    · subst same
      simp [moves.self, locked, queue]
    · have unlocked := kept.lock other
      rw [(kept.lock party).mp (moves.source ▸ held)] at unlocked
      simpa [moves.rest same, queue, Ne.symm same] using unlocked
  | push queue locked chain values fresh waits unsignalled =>
    exact kept.lock_same moves (by rw [queue]; rfl) locked
  | pop taken left front queue locked chain values waits =>
    exact kept.lock_same moves (by rw [queue]; rfl) locked
  | remove member queue locked chain values gone =>
    exact kept.lock_same moves (by rw [queue]; rfl) locked
  | publish node signal kind queue locked chain value values free =>
    exact kept.lock_same moves (by rw [queue]) locked
  | consume queue locked chain values waited final gone =>
    exact kept.lock_same moves (by rw [queue]) locked

/-- Only a signaler writes to the node of another party, and only while that node is given away and
linked nowhere. -/
theorem Kept.value_other {other : ι} (different : other ≠ party) :
    valueOf after other = valueOf before other ∨
      (discipline.Waits before other ∧ discipline.Waits after other ∧
        (valueOf before other).isFinal = false ∧ other ∉ before.queue.entries ∧
        discipline.signals (valueOf after other) = true) := by
  cases moves.effect with
  | own queue locked quiet => exact Or.inl (quiet.values other different)
  | acquire free queue locked quiet => exact Or.inl (quiet.values other different)
  | release queue held locked quiet => exact Or.inl (quiet.values other different)
  | push queue locked chain values fresh waits unsignalled => exact Or.inl (values other different)
  | pop taken left front queue locked chain values waits => exact Or.inl (values other)
  | remove member queue locked chain values gone => exact Or.inl (values other different)
  | publish node signal kind queue locked chain value values free =>
    by_cases isNode : other = node
    · subst isNode
      obtain ⟨-, waits, unsignalled, apart⟩ := kept.publishes moves.source chain
      refine Or.inr ⟨waits, ?_, unsignalled, apart, by rw [value, kind]⟩
      rw [Waits, moves.rest different, value]
      exact discipline.signalledWaits waits kind
    · exact Or.inl (values other isNode)
  | consume queue locked chain values waited final gone => exact Or.inl (values other different)

end

/-- Of the party that moves: a signalled node that is still given away is untouched. -/
theorem Moves.signalled_self (moves : discipline.Moves before after party pc pc')
    (kept : discipline.Kept before) (waits : discipline.waits pc' (valueOf after party) = true)
    (final : (valueOf after party).isFinal = true) :
    discipline.Waits before party ∧ valueOf after party = valueOf before party := by
  have quietly : discipline.Undisturbed before after party pc pc' →
      discipline.Waits before party ∧ valueOf after party = valueOf before party := fun quiet => by
    have waited : discipline.waits pc (valueOf before party) = true := quiet.waits ▸ waits
    refine ⟨by rw [Waits, moves.source]; exact waited, ?_⟩
    rcases quiet.final waited with same | ⟨-, unsignalled⟩
    · exact same
    · rw [unsignalled] at final
      cases final
  cases moves.effect with
  | own queue locked quiet => exact quietly quiet
  | acquire free queue locked quiet => exact quietly quiet
  | release queue held locked quiet => exact quietly quiet
  | push queue locked chain values fresh waits unsignalled =>
    rw [unsignalled] at final
    cases final
  | pop taken left front queue locked chain values same =>
    rw [values, same] at waits
    exact ⟨by rw [Waits, moves.source]; exact waits, values party⟩
  | remove member queue locked chain values gone =>
    rw [gone] at waits
    cases waits
  | publish node signal kind queue locked chain value values free =>
    rw [values party (kept.publishes moves.source chain).1.symm, free] at waits
    cases waits
  | consume queue locked chain values waited final gone =>
    rw [gone] at waits
    cases waits

/-- Of the party that moves: a node that is given away was so before, or has just been linked. -/
theorem Moves.waits_self (moves : discipline.Moves before after party pc pc')
    (kept : discipline.Kept before) (waits : discipline.waits pc' (valueOf after party) = true) :
    discipline.Waits before party ∨ after.queue = before.queue.push party := by
  have waited (same : discipline.waits pc' (valueOf after party) = discipline.waits pc
      (valueOf before party)) : discipline.Waits before party := by
    rw [Waits, moves.source, ← same]
    exact waits
  cases moves.effect with
  | own queue locked quiet => exact .inl (waited quiet.waits)
  | acquire free queue locked quiet => exact .inl (waited quiet.waits)
  | release queue held locked quiet => exact .inl (waited quiet.waits)
  | push queue locked chain values fresh waits unsignalled => exact .inr queue
  | pop taken left front queue locked chain values same =>
    exact .inl (waited (by rw [values, same]))
  | remove member queue locked chain values gone =>
    rw [gone] at waits
    cases waits
  | publish node signal kind queue locked chain value values free =>
    rw [values party (kept.publishes moves.source chain).1.symm, free] at waits
    cases waits
  | consume queue locked chain values waited final gone =>
    rw [gone] at waits
    cases waits

/-- **Every effect keeps the discipline.** -/
theorem Kept.step (kept : discipline.Kept before)
    (moves : discipline.Moves before after party pc pc') : discipline.Kept after where
  placed := kept.placed_step moves
  lock := kept.lock_step moves
  owned other value own := by
    by_cases same : other = party
    · subst same
      rcases moves.owned value (moves.self ▸ own) with exactly | ⟨owned, keep⟩
      · exact exactly
      · rw [keep]
        exact kept.owned other value (moves.source ▸ owned)
    · rw [moves.rest same] at own
      rcases kept.value_other moves same with keep | ⟨waits, -⟩
      · rw [keep]
        exact kept.owned other value own
      · rw [Waits, discipline.ownFree _ own] at waits
        cases waits
  signalled other waits final := by
    by_cases same : other = party
    · subst same
      obtain ⟨waited, keep⟩ :=
        moves.signalled_self kept (by rw [Waits, moves.self] at waits; exact waits) final
      rw [keep] at final ⊢
      exact kept.signalled other waited final
    · rcases kept.value_other moves same with keep | ⟨-, -, -, -, signals⟩
      · rw [Waits, moves.rest same, keep] at waits
        rw [keep] at final ⊢
        exact kept.signalled other waits final
      · exact signals

/-- Nobody waits, the queue is new. -/
theorem Kept.start {waiters : Waiters ι Pc} (queue : waiters.queue = WaitQueue.new)
    (rest : ∀ party, discipline.chain (waiters.pc party) = [] ∧
      discipline.waits (waiters.pc party) (valueOf waiters party) = false ∧
      discipline.locked (waiters.pc party) = false ∧ discipline.own (waiters.pc party) = none) :
    discipline.Kept waiters where
  placed := Placed.empty (by rw [nodes, queue]; rfl) (fun party => (rest party).1)
    (fun party => by simp [nodes, Waits, (rest party).2.1])
  lock party := by simp [(rest party).2.2.1, queue, WaitQueue.new]
  owned party value own := by simp [(rest party).2.2.2] at own
  signalled party waits := by simp [Waits, (rest party).2.1] at waits

/-! ### The steps of the code

Every access of the code is one of these moves. The hypotheses say what the state is afterwards and
compare two concrete program points: both hold by computation. -/

section Steps

variable {node : Signal}

theorem values_of_update (signal : after.signal = Function.update before.signal party node)
    (other : ι) (different : other ≠ party) : valueOf after other = valueOf before other := by
  rw [valueOf, signal, Function.update_of_ne different]

theorem value_of_update (signal : after.signal = Function.update before.signal party node) :
    valueOf after party = node.value := by
  rw [valueOf, signal, Function.update_self]

/-- What the code relies on about the party's own node, when the step does not write it. -/
theorem owned_of_same (signal : after.signal = before.signal)
    (own : discipline.own pc' = none ∨ discipline.own pc' = discipline.own pc) (value : SignalValue)
    (owned : discipline.own pc' = some value) : valueOf after party = value ∨
      (discipline.own pc = some value ∧ valueOf after party = valueOf before party) := by
  rcases own with absent | same
  · rw [absent] at owned
    cases owned
  · exact Or.inr ⟨same ▸ owned, by rw [valueOf, signal]⟩

/-- What the code relies on about the party's own node, when the step writes it. -/
theorem owned_of_write (signal : after.signal = Function.update before.signal party node)
    (own : discipline.own pc' = none ∨ discipline.own pc' = some node.value) (value : SignalValue)
    (owned : discipline.own pc' = some value) : valueOf after party = value ∨
      (discipline.own pc = some value ∧ valueOf after party = valueOf before party) := by
  rcases own with absent | same
  · rw [absent] at owned
    cases owned
  · rw [same] at owned
    cases owned
    exact Or.inl (value_of_update signal)

theorem undisturbed_same (signal : after.signal = before.signal)
    (chain : discipline.chain pc' = discipline.chain pc)
    (waits : discipline.waits pc' (valueOf before party) = discipline.waits pc
      (valueOf before party)) :
    discipline.Undisturbed before after party pc pc' where
  chain := chain
  values other _ := by rw [valueOf, signal]
  waits := by rw [valueOf, signal, waits]
  final _ := Or.inl (by rw [valueOf, signal])

/-- A write to the party's own node that is not given away. -/
theorem undisturbed_write (signal : after.signal = Function.update before.signal party node)
    (chain : discipline.chain pc' = discipline.chain pc)
    (free : discipline.waits pc (valueOf before party) = false)
    (waits : discipline.waits pc' node.value = false) :
    discipline.Undisturbed before after party pc pc' where
  chain := chain
  values := values_of_update signal
  waits := by rw [value_of_update signal, waits, free]
  final waited := by
    rw [free] at waited
    cases waited

section

variable (source : before.pc party = pc)
include source

/-- A step on the state word alone. -/
theorem Moves.goto
    (result : after = ⟨before.queue, before.signal, Function.update before.pc party pc'⟩)
    (chain : discipline.chain pc' = discipline.chain pc)
    (locked : discipline.locked pc' = discipline.locked pc)
    (waits : discipline.waits pc' (valueOf before party) = discipline.waits pc
      (valueOf before party))
    (own : discipline.own pc' = none ∨ discipline.own pc' = discipline.own pc) :
    discipline.Moves before after party pc pc' := by
  subst result
  exact ⟨source, rfl, owned_of_same rfl own, .own rfl locked (undisturbed_same rfl chain waits)⟩

/-- A step on the state word, after which the code relies on what it has read of the party's own
node. -/
theorem Moves.read
    (result : after = ⟨before.queue, before.signal, Function.update before.pc party pc'⟩)
    (chain : discipline.chain pc' = discipline.chain pc)
    (locked : discipline.locked pc' = discipline.locked pc)
    (waits : discipline.waits pc' (valueOf before party) = discipline.waits pc
      (valueOf before party))
    (own : ∀ value, discipline.own pc' = some value → valueOf before party = value) :
    discipline.Moves before after party pc pc' := by
  subst result
  exact ⟨source, rfl, fun value owned => Or.inl (own value owned),
    .own rfl locked (undisturbed_same rfl chain waits)⟩

/-- A write to the party's own node that is not given away. -/
theorem Moves.write
    (result : after = ⟨before.queue, Function.update before.signal party node,
      Function.update before.pc party pc'⟩)
    (chain : discipline.chain pc' = discipline.chain pc)
    (locked : discipline.locked pc' = discipline.locked pc)
    (free : discipline.waits pc (valueOf before party) = false)
    (waits : discipline.waits pc' node.value = false)
    (own : discipline.own pc' = none ∨ discipline.own pc' = some node.value) :
    discipline.Moves before after party pc pc' := by
  subst result
  exact ⟨source, rfl, owned_of_write rfl own,
    .own rfl locked (undisturbed_write rfl chain free waits)⟩

/-- A write to the party's own node while it is given away: the waker slot, or one unsignalled value
in place of another. -/
theorem Moves.touch
    (result : after = ⟨before.queue, Function.update before.signal party node,
      Function.update before.pc party pc'⟩)
    (chain : discipline.chain pc' = discipline.chain pc)
    (locked : discipline.locked pc' = discipline.locked pc)
    (waits : discipline.waits pc' node.value = discipline.waits pc (valueOf before party))
    (final : node.value = valueOf before party ∨
      ((valueOf before party).isFinal = false ∧ node.value.isFinal = false))
    (own : discipline.own pc' = none) : discipline.Moves before after party pc pc' := by
  subst result
  exact ⟨source, rfl, owned_of_write rfl (Or.inl own), .own rfl locked
    ⟨chain, values_of_update rfl, by rw [value_of_update rfl, waits],
      fun _ => by rw [value_of_update rfl]; exact final⟩⟩

/-- `queue.lock`, when it succeeds. -/
theorem Moves.lock {alloc : Bool} {held : WaitQueue ι}
    (acquired : before.queue.lock party alloc = .acquired held)
    (result : after = ⟨held, before.signal, Function.update before.pc party pc'⟩)
    (chain : discipline.chain pc' = discipline.chain pc) (locked : discipline.locked pc' = true)
    (waits : discipline.waits pc' (valueOf before party) = discipline.waits pc
      (valueOf before party))
    (own : discipline.own pc' = none ∨ discipline.own pc' = discipline.own pc) :
    discipline.Moves before after party pc pc' := by
  obtain ⟨free, rfl, -⟩ := WaitQueue.lock_acquired acquired
  subst result
  exact ⟨source, rfl, owned_of_same rfl own,
    .acquire free rfl locked (undisturbed_same rfl chain waits)⟩

/-- `locked.unlock`. -/
theorem Moves.unlock
    (result : after = ⟨before.queue.unlock, before.signal, Function.update before.pc party pc'⟩)
    (chain : discipline.chain pc' = discipline.chain pc) (held : discipline.locked pc = true)
    (locked : discipline.locked pc' = false)
    (waits : discipline.waits pc' (valueOf before party) = discipline.waits pc
      (valueOf before party))
    (own : discipline.own pc' = none ∨ discipline.own pc' = discipline.own pc) :
    discipline.Moves before after party pc pc' := by
  subst result
  exact ⟨source, rfl, owned_of_same rfl own,
    .release rfl held locked (undisturbed_same rfl chain waits)⟩

/-- `locked.unlock`, and a write to the party's own node that is not given away. -/
theorem Moves.unlockWrite
    (result : after = ⟨before.queue.unlock, Function.update before.signal party node,
      Function.update before.pc party pc'⟩)
    (chain : discipline.chain pc' = discipline.chain pc) (held : discipline.locked pc = true)
    (locked : discipline.locked pc' = false)
    (free : discipline.waits pc (valueOf before party) = false)
    (waits : discipline.waits pc' node.value = false)
    (own : discipline.own pc' = none ∨ discipline.own pc' = some node.value) :
    discipline.Moves before after party pc pc' := by
  subst result
  exact ⟨source, rfl, owned_of_write rfl own,
    .release rfl held locked (undisturbed_write rfl chain free waits)⟩

/-- `q.push` of the party's own node. -/
theorem Moves.push
    (result : after = ⟨before.queue.push party, Function.update before.signal party node,
      Function.update before.pc party pc'⟩)
    (chain : discipline.chain pc' = discipline.chain pc)
    (locked : discipline.locked pc' = discipline.locked pc)
    (fresh : discipline.waits pc (valueOf before party) = false)
    (waits : discipline.waits pc' node.value = true) (unsignalled : node.value.isFinal = false)
    (own : discipline.own pc' = none) : discipline.Moves before after party pc pc' := by
  subst result
  exact ⟨source, rfl, owned_of_write rfl (Or.inl own),
    .push rfl locked chain (values_of_update rfl) fresh
      (by rw [value_of_update rfl, waits]) (by rw [value_of_update rfl, unsignalled])⟩

/-- `q.pop` of the nodes in front of `left`, which may write the other fields of nodes. -/
theorem Moves.pop {taken left : List ι} {signal : ι → Signal}
    (result : after = ⟨before.queue.leave left, signal, Function.update before.pc party pc'⟩)
    (front : before.queue.entries = taken ++ left)
    (values : ∀ other, (signal other).value = valueOf before other)
    (chain : discipline.chain pc' = discipline.chain pc ++ taken)
    (locked : discipline.locked pc' = discipline.locked pc)
    (waits : discipline.waits pc' (valueOf before party) = discipline.waits pc
      (valueOf before party))
    (own : discipline.own pc' = none ∨ discipline.own pc' = discipline.own pc) :
    discipline.Moves before after party pc pc' := by
  subst result
  refine ⟨source, rfl, fun value owned => ?_, .pop taken left front rfl locked chain values waits⟩
  rcases own with absent | same
  · rw [absent] at owned
    cases owned
  · exact Or.inr ⟨same ▸ owned, values party⟩

/-- `q.remove` of the party's own node, when it is found. -/
theorem Moves.remove (member : party ∈ before.queue.entries)
    (result : after = ⟨before.queue.remove party, before.signal,
      Function.update before.pc party pc'⟩)
    (chain : discipline.chain pc' = discipline.chain pc)
    (locked : discipline.locked pc' = discipline.locked pc)
    (gone : discipline.waits pc' (valueOf before party) = false) (own : discipline.own pc' = none) :
    discipline.Moves before after party pc pc' := by
  subst result
  exact ⟨source, rfl, owned_of_same rfl (Or.inl own),
    .remove member rfl locked chain (fun _ _ => rfl) gone⟩

/-- `waker.take` of a node: the value stays. -/
theorem Moves.takeWaker {popped : ι}
    (result : after = ⟨before.queue, Function.update before.signal popped
      (before.signal popped).take, Function.update before.pc party pc'⟩)
    (chain : discipline.chain pc' = discipline.chain pc)
    (locked : discipline.locked pc' = discipline.locked pc)
    (waits : discipline.waits pc' (valueOf before party) = discipline.waits pc
      (valueOf before party))
    (own : discipline.own pc' = none ∨ discipline.own pc' = discipline.own pc) :
    discipline.Moves before after party pc pc' := by
  have values : ∀ other, valueOf after other = valueOf before other := fun other => by
    by_cases same : other = popped
    · subst same
      simp [valueOf, result]
    · simp [valueOf, result, same]
  refine ⟨source, by rw [result], fun value owned => ?_, .own (by rw [result]) locked
    ⟨chain, fun other _ => values other, by rw [values, waits], fun _ => Or.inl (values party)⟩⟩
  rcases own with absent | same
  · rw [absent] at owned
    cases owned
  · exact Or.inr ⟨same ▸ owned, values party⟩

end

/-- `value.store` of `signal_node`, on the node of another party. -/
theorem Moves.publishTo {popped : ι} {signal : SignalValue} (apart : popped ≠ party)
    (source : before.pc party = pc)
    (result : after = ⟨before.queue, Function.update before.signal popped
      ((before.signal popped).setValue signal), Function.update before.pc party pc'⟩)
    (kind : discipline.signals signal = true)
    (chain : discipline.chain pc = popped :: discipline.chain pc')
    (locked : discipline.locked pc' = discipline.locked pc)
    (free : discipline.waits pc' (valueOf before party) = false)
    (own : discipline.own pc' = none ∨ discipline.own pc' = discipline.own pc) :
    discipline.Moves before after party pc pc' := by
  have values : ∀ other, other ≠ popped → valueOf after other = valueOf before other :=
    fun other different => by simp [valueOf, result, different]
  refine ⟨source,
    by rw [result], fun value owned => ?_, .publish popped signal kind (by rw [result])
    locked chain (by simp [valueOf, result]) values free⟩
  rcases own with absent | same
  · rw [absent] at owned
    cases owned
  · exact Or.inr ⟨same ▸ owned, values party apart.symm⟩

/-- `value.store` of `signal_node`. -/
theorem Moves.publish {popped : ι} {signal : SignalValue} (kept : discipline.Kept before)
    (source : before.pc party = pc)
    (result : after = ⟨before.queue, Function.update before.signal popped
      ((before.signal popped).setValue signal), Function.update before.pc party pc'⟩)
    (kind : discipline.signals signal = true)
    (chain : discipline.chain pc = popped :: discipline.chain pc')
    (locked : discipline.locked pc' = discipline.locked pc)
    (free : discipline.waits pc' (valueOf before party) = false)
    (own : discipline.own pc' = none ∨ discipline.own pc' = discipline.own pc) :
    discipline.Moves before after party pc pc' :=
  .publishTo (kept.publishes source chain).1 source result kind chain locked free own

/-- The party has read the final value of its own node and writes its node. -/
theorem Moves.consumeWrite (source : before.pc party = pc)
    (result : after = ⟨before.queue, Function.update before.signal party node,
      Function.update before.pc party pc'⟩)
    (chain : discipline.chain pc' = discipline.chain pc)
    (locked : discipline.locked pc' = discipline.locked pc)
    (waited : discipline.waits pc (valueOf before party) = true)
    (final : (valueOf before party).isFinal = true) (gone : discipline.waits pc' node.value = false)
    (own : discipline.own pc' = none ∨ discipline.own pc' = some node.value) :
    discipline.Moves before after party pc pc' := by
  subst result
  exact ⟨source, rfl, owned_of_write rfl own,
    .consume rfl locked chain (values_of_update rfl) waited final
      (by rw [value_of_update rfl, gone])⟩

/-- The party has read the final value of its own node. -/
theorem Moves.consume (source : before.pc party = pc)
    (result : after = ⟨before.queue, before.signal, Function.update before.pc party pc'⟩)
    (chain : discipline.chain pc' = discipline.chain pc)
    (locked : discipline.locked pc' = discipline.locked pc)
    (waited : discipline.waits pc (valueOf before party) = true)
    (final : (valueOf before party).isFinal = true)
    (gone : discipline.waits pc' (valueOf before party) = false) (own : discipline.own pc' = none) :
    discipline.Moves before after party pc pc' := by
  subst result
  exact ⟨source, rfl, owned_of_same rfl (Or.inl own),
    .consume rfl locked chain (fun _ _ => rfl) waited final gone⟩

end Steps

/-! ### What the invariant says -/

/-- A linked node is given away and not signalled. -/
theorem Kept.queued (kept : discipline.Kept before) (member : party ∈ before.queue.entries) :
    discipline.Waits before party ∧ (valueOf before party).isFinal = false := by
  obtain ⟨waits, unsignalled⟩ := kept.placed.queued party member
  exact ⟨waits, by simpa [nodes] using unsignalled⟩

/-- A popped node is given away, not signalled and not linked. -/
theorem Kept.popped (kept : discipline.Kept before) {node : ι}
    (member : node ∈ discipline.chain (before.pc party)) :
    discipline.Waits before node ∧ (valueOf before node).isFinal = false ∧
      node ∉ before.queue.entries := by
  obtain ⟨waits, unsignalled, apart⟩ := kept.placed.popped party node member
  exact ⟨waits, by simpa [nodes] using unsignalled, apart⟩

/-- Two parties never hold the tag-lock at once. -/
theorem Kept.lock_unique (kept : discipline.Kept before) {other : ι}
    (first : discipline.locked (before.pc party) = true)
    (second : discipline.locked (before.pc other) = true) : party = other := by
  have holder := (kept.lock party).mp first
  rw [(kept.lock other).mp second] at holder
  exact (Option.some.inj holder).symm

end Discipline

end Xutex
