/-
**Standstill: where a primitive and its sleepers stop.**

A call stops for three reasons only: it waits for the holder of the tag-lock, a thread is in `park`,
or the drop of a future waits for a signal that is on its way. When nothing goes on any more, none
of these waits is for a party that could go on.

* `Halt` — what a program point can stop for; `Halting` — what a primitive declares about its
  program points, and `Halting.Sound` what it proves of them.
* `Sleeping.Standstill` — without a new call, nothing is possible but rounds of a spin loop that
  change nothing.
* `Halting.Sound.halted` — **at a standstill the tag-lock is free and nobody waits for it, and
  whoever is blocked is blocked on a node in the queue.**
* `Halting.Sound.standstill` — nobody owes a call then, and a future whose node is signalled was
  woken since its latest poll began; this holds in the runs in which no rearm replaces a waker that
  the signaler has taken (`Rearmed`).

What is left to the primitive is why a linked node is rightly linked.
-/

import Xutex.Core.Sleepers

set_option linter.unusedSectionVars false

namespace Xutex

open Concurrency Discipline

/-- A free tag-lock is acquired, or there is no queue and none was to be allocated. -/
theorem WaitQueue.lock_of_free {ι : Type} {queue : WaitQueue ι} (free : queue.holder = none)
    (party : ι) (alloc : Bool) :
    (queue.lock party alloc = .absent ∧ alloc = false) ∨ ∃ locked, queue.lock party alloc =
    .acquired locked := by
  unfold WaitQueue.lock
  rw [free]
  dsimp only
  split
  · rename_i missing
    simp only [Bool.and_eq_true, Bool.not_eq_true'] at missing
    exact .inl ⟨rfl, missing.2⟩
  · exact .inr ⟨_, rfl⟩

/-- An acquired tag-lock leaves the nodes as they are. -/
theorem WaitQueue.lock_entries {ι : Type} {queue locked : WaitQueue ι} {party : ι} {alloc : Bool}
    (result : queue.lock party alloc = .acquired locked) : locked.entries = queue.entries := by
  rw [(WaitQueue.lock_acquired result).2.1]

/-- What a call can stop for. -/
inductive Halt
  /-- Nothing: the call goes on. -/
  | goes
  /-- No call is executing. -/
  | rests
  /-- The holder of the tag-lock. -/
  | spins
  /-- A signal that is on its way, in the drop of a future. -/
  | awaits
  /-- `park`. -/
  | parks
  deriving DecidableEq

/-- What a primitive declares about the ends of its steps. -/
structure Halting {State ι Pc Move : Type} [DecidableEq ι] (sleeping : Sleeping State ι Pc Move)
    where
  halt : Pc → Halt
  /-- The moves by which a call goes on; the others are new calls. -/
  internal : Move → Bool
  advanceInternal : internal sleeping.advance = true
  lockedGoes : ∀ {pc}, sleeping.discipline.locked pc = true → halt pc = .goes
  signalerGoes : ∀ {pc}, sleeping.discipline.chain pc ≠ [] → halt pc = .goes
  parkedParks : ∀ {pc}, sleeping.roleAt pc = .parked ↔ halt pc = .parks
  awaitsGone : ∀ {pc}, halt pc = .awaits → sleeping.roleAt pc = .gone

namespace Sleeping

variable {State ι Pc Move : Type} [DecidableEq ι] {sleeping : Sleeping State ι Pc Move}

/-- The steps that are no new call and come from nobody else. -/
def GoesOn (internal : Move → Bool) : Label ι Move → Prop
  | .move label => internal label.2 = true
  | .wake _ | .unpark _ | .again _ => True
  | .spurious _ | .stray _ => False

/-- **Nothing goes on**: the only steps left are rounds of a spin loop, and they change nothing. -/
def Standstill (halting : Halting sleeping) (pair : State × Alarm ι) : Prop :=
  ∀ label next, GoesOn halting.internal label → sleeping.machine.step pair label = some next →
    next = pair ∧ ∃ party move, label = .move (party, move) ∧
      halting.halt (sleeping.pc pair.1 party) = .spins

variable (sleeping) in
/-- No step of the party is possible. -/
def stopped (pair : State × Alarm ι) (party : ι) : Bool :=
  (sleeping.step pair (.move (party, sleeping.advance))).isNone &&
    (sleeping.step pair (.wake party)).isNone &&
    (sleeping.step pair (.unpark party)).isNone && (sleeping.step pair (.again party)).isNone

/-- A standstill by computation, where a call has no other moves than `advance`. -/
theorem standstill_of_stopped {halting : Halting sleeping} {pair : State × Alarm ι}
    (only : ∀ party move, halting.internal move = true →
      move = sleeping.advance ∨ sleeping.core.step pair.1 (party, move) = none)
    (stopped : ∀ party, sleeping.stopped pair party = true) : Standstill halting pair := by
  intro label next goesOn stepped
  have none (party : ι) := stopped party
  simp only [Sleeping.stopped, Bool.and_eq_true, Option.isNone_iff_eq_none, and_assoc] at none
  have stepped : sleeping.step pair label = some next := stepped
  cases label with
  | move label =>
    obtain ⟨party, move⟩ := label
    rcases only party move goesOn with advances | refused
    · rw [advances, (none party).1] at stepped
      cases stepped
    · simp [Sleeping.step, refused] at stepped
  | wake party =>
    rw [(none party).2.1] at stepped
    cases stepped
  | unpark party =>
    rw [(none party).2.2.1] at stepped
    cases stepped
  | again party =>
    rw [(none party).2.2.2] at stepped
    cases stepped
  | spurious _ | stray _ => exact goesOn.elim

end Sleeping

namespace Halting

variable {State ι Pc Move : Type} [DecidableEq ι] {sleeping : Sleeping State ι Pc Move}
  (halting : Halting sleeping)

/-- **What a primitive proves of the ends of its steps.** -/
structure Sound (allowed : State → ι × Move → State → Prop) : Prop where
  goes : ∀ {state party}, sleeping.core.ReachableBy allowed state →
    halting.halt (sleeping.pc state party) = .goes →
    ∃ move next, halting.internal move = true ∧ sleeping.core.step state (party, move) = some next
  /-- A loop that waits for the holder of the queue is left when there is none. -/
  spins : ∀ {state party queue}, sleeping.core.ReachableBy allowed state →
    halting.halt (sleeping.pc state party) = .spins → sleeping.shows state queue →
      queue.holder = none →
    ∃ move next, halting.internal move = true ∧ sleeping.core.step state (party, move) = some next ∧
      sleeping.pc next party ≠ sleeping.pc state party
  awaits : ∀ {state party}, sleeping.core.ReachableBy allowed state →
    halting.halt (sleeping.pc state party) = .awaits → (sleeping.signal state party).value.isFinal =
      true →
    ∃ move next, halting.internal move = true ∧ sleeping.core.step state (party, move) = some next

/-- **Where a call is left at a standstill.** -/
structure Halted (state : State) (queue : WaitQueue ι) (party : ι) : Prop where
  /-- Nobody goes on, and nobody waits for the tag-lock. -/
  halted : halting.halt (sleeping.pc state party) ≠ .goes ∧ halting.halt (sleeping.pc state party) ≠
    .spins
  /-- A drop that waits for its signal waits for a node that does not stay in the queue. -/
  leaves : halting.halt (sleeping.pc state party) = .awaits →
    (sleeping.signal state party).value.isFinal = false ∧ party ∈ queue.entries ∧
    ¬sleeping.stays state party
  /-- A node that is given away is linked until it is signalled. -/
  linked : sleeping.waits state party = true → (sleeping.signal state party).value.isFinal = false →
    party ∈ queue.entries

/-- How a party is left at a standstill, with what became of the calls that wake it. -/
structure Left (state : State) (alarm : Alarm ι) (queue : WaitQueue ι) (party : ι) : Prop
    extends halting.Halted state queue party where
  settled : alarm.owes party = none
  asleep : halting.halt (sleeping.pc state party) = .parks →
    (sleeping.signal state party).value.isFinal = false
  woken : sleeping.roleAt (sleeping.pc state party) = .rest → sleeping.waits state party = true →
    (sleeping.signal state party).value.isFinal = true → alarm.woken party = true

variable {halting} {allowed : State → ι × Move → State → Prop} {state : State} {alarm : Alarm ι}
  {party : ι}

section Standstill

variable (still : Sleeping.Standstill halting (state, alarm))
include still

/-- Nobody owes a call. -/
theorem settled_of_standstill (party : ι) : alarm.owes party = none := by
  cases owed : alarm.owes party with
  | none => rfl
  | some target =>
    obtain ⟨-, _, _, spins, -⟩ := still (.wake party) (state, alarm.deliver party target) trivial
      (by simp [Sleeping.machine, Sleeping.step, owed])
    cases spins

/-- A party outside of `park` that can go on is in a spin loop, and stays where it is. -/
theorem spins_of_standstill (upright : sleeping.roleAt (sleeping.pc state party) ≠ .parked)
    {move : Move} {next : State}
    (internal : halting.internal move = true)
    (stepped : sleeping.core.step state (party, move) = some next) :
    next = state ∧ halting.halt (sleeping.pc state party) = .spins := by
  have settled := settled_of_standstill still party
  obtain ⟨same, spinner, _, label, spins⟩ :=
    still (.move (party, move)) (next, sleeping.note alarm state (party, move)) internal (by
      simp [Sleeping.machine, Sleeping.step, settled, upright, stepped])
  cases label
  exact ⟨(Prod.mk.inj same).1, spins⟩

/-- The steps that are no new call leave the alarm as it is. -/
theorem alarm_of_standstill (label : Sleeping.Label ι Move) (next : State) (alarm' : Alarm ι)
    (goesOn : Sleeping.GoesOn halting.internal label)
    (stepped : sleeping.machine.step (state, alarm) label = some (next, alarm')) : alarm' = alarm :=
  (Prod.mk.inj (still label (next, alarm') goesOn stepped).1).2

/-- A thread in `park` has not returned: it would look at its node and leave, or park again. -/
theorem asleep_of_standstill (parked : sleeping.roleAt (sleeping.pc state party) = .parked) :
    alarm.awake party = false := by
  by_contra awake
  rw [Bool.not_eq_false] at awake
  have settled := settled_of_standstill still party
  have same : alarm.setAwake party false = alarm := by
    cases looked : sleeping.core.step state (party, sleeping.advance) with
    | none =>
      refine alarm_of_standstill still (.again party) state _ trivial ?_
      simp [Sleeping.machine, Sleeping.step, parked, awake, looked]
    | some next =>
      have involved : sleeping.roleAt (sleeping.pc state party) ≠ .apart :=
        parked ▸ NodeRole.noConfusion
      obtain ⟨takes, publishes⟩ := Sleeping.quiet_of_role involved
      have noted : sleeping.note alarm state (party, sleeping.advance) =
          alarm.setAwake party false := by
        simp [Sleeping.note, Sleeping.reloads, sleeping.advanceQuiet, takes, publishes, parked]
      refine alarm_of_standstill still (.move (party, sleeping.advance))
        next _ halting.advanceInternal ?_
      simp [Sleeping.machine, Sleeping.step, settled, awake, looked, noted]
  have slept : (alarm.setAwake party false).awake party = false := Function.update_self _ _ _
  rw [same, awake] at slept
  cases slept

/-- A thread in `park` is neither awake nor about to be. -/
theorem not_roused_of_standstill (parked : sleeping.roleAt (sleeping.pc state party) = .parked) :
    ¬alarm.Roused party := by
  have asleep := asleep_of_standstill still parked
  rintro (awake | token | ⟨signaler, owed⟩)
  · rw [asleep] at awake
    cases awake
  · have same : (alarm.setToken party false).setAwake party true = alarm := by
      refine alarm_of_standstill still (.unpark party) state _ trivial ?_
      simp [Sleeping.machine, Sleeping.step, parked, asleep, token]
    have awoken : ((alarm.setToken party false).setAwake party true).awake party = true :=
      Function.update_self _ _ _
    rw [same, asleep] at awoken
    cases awoken
  · rw [settled_of_standstill still signaler] at owed
    cases owed

end Standstill

/-- **At a standstill nobody has the tag-lock, and nobody waits for it.** -/
theorem Sound.halted (halts : halting.Sound allowed) (sound : sleeping.Sound allowed)
    (reach : sleeping.core.ReachableBy allowed state)
    (still : Sleeping.Standstill halting (state, alarm)) :
    ∃ queue, sleeping.shows state queue ∧ queue.holder = none ∧
      ∀ party, halting.Halted state queue party := by
  obtain ⟨queue, shows, kept⟩ := sound.queue reach
  -- whoever goes on, or waits for a signal that was given, is no spin loop
  have stuck {party : ι} {halt : Halt} (here : halting.halt (sleeping.pc state party) = halt)
      (upright : halt ≠ .parks) (moves : ∃ move next, halting.internal move = true ∧
        sleeping.core.step state (party, move) = some next) : halt = .spins := by
    obtain ⟨move, next, internal, stepped⟩ := moves
    refine here.symm.trans (spins_of_standstill still (fun parked => upright ?_) internal stepped).2
    exact here.symm.trans (halting.parkedParks.mp parked)
  have moving {party : ι} : halting.halt (sleeping.pc state party) ≠ .goes := fun goes =>
    Halt.noConfusion (stuck goes Halt.noConfusion (halts.goes reach goes))
  have free : queue.holder = none := by
    cases held : queue.holder with
    | none => rfl
    | some holder => exact absurd (halting.lockedGoes ((kept.lock holder).mpr held)) moving
  have unchained (signaler : ι) : sleeping.discipline.chain (sleeping.pc state signaler) = [] := by
    by_contra busy
    exact moving (halting.signalerGoes busy)
  have linked {party : ι} (given : sleeping.waits state party = true)
      (unsignalled : (sleeping.signal state party).value.isFinal = false) :
      party ∈ queue.entries := by
    rcases kept.placed.located party given (by simpa [Discipline.nodes] using unsignalled) with
      queued | ⟨signaler, chained⟩
    · exact queued
    · exact absurd chained (by simp [Discipline.nodes, unchained])
  refine ⟨queue, shows, free, fun party => ⟨⟨moving, fun spins => ?_⟩, fun awaits => ?_, linked⟩⟩
  · obtain ⟨move, next, internal, stepped, moved⟩ := halts.spins reach spins shows free
    have upright : sleeping.roleAt (sleeping.pc state party) ≠ .parked := fun parked =>
      Halt.noConfusion (spins.symm.trans (halting.parkedParks.mp parked))
    exact moved (by rw [(spins_of_standstill still upright internal stepped).1])
  · have gone := halting.awaitsGone awaits
    have unsignalled : (sleeping.signal state party).value.isFinal = false := by
      by_contra final
      rw [Bool.not_eq_false] at final
      cases stuck awaits Halt.noConfusion (halts.awaits reach awaits final)
    exact ⟨unsignalled, linked (sleeping.goneWaits _ gone) unsignalled,
      sound.leaves_of_gone reach party gone⟩

/-- **The standstill**, in the runs in which no waker is lost to a rearm. -/
theorem Sound.standstill (halts : halting.Sound allowed) (sound : sleeping.Sound allowed)
    (reach : sleeping.machine.ReachableBy (sleeping.Permits allowed) (state, alarm))
    (still : Sleeping.Standstill halting (state, alarm)) :
    ∃ queue, sleeping.shows state queue ∧ queue.holder = none ∧
      ∀ party, halting.Left state alarm queue party := by
  obtain ⟨queue, shows, free, halted⟩ := halts.halted sound (Sleeping.core_reachable reach) still
  refine ⟨queue, shows, free, fun party =>
    ⟨halted party, settled_of_standstill still party, fun parks => ?_, fun rests given final => ?_⟩⟩
  · have parked := halting.parkedParks.mpr parks
    by_contra final
    rw [Bool.not_eq_false] at final
    exact not_roused_of_standstill still parked ((sound.no_oversleeping reach party final).1 parked)
  · rcases (sound.no_oversleeping reach party final).2 rests given with woken | ⟨signaler, owed⟩
    · exact woken
    · rw [settled_of_standstill still signaler] at owed
      cases owed

/-! ### A primitive that is another one, under calls of its own -/

section Relabel

variable {Move' : Type} {core : System State (ι × Move')} {call : Move' → Move} {advance : Move'}
  {same : call advance = sleeping.advance}

variable (halting) in
/-- Its calls go on where those of the primitive below do. -/
def relabel (core : System State (ι × Move')) (call : Move' → Move) (advance : Move')
    (same : call advance = sleeping.advance) :
    Halting (sleeping.relabel core call advance same) where
  halt := halting.halt
  internal move := halting.internal (call move)
  advanceInternal := same ▸ halting.advanceInternal
  lockedGoes := halting.lockedGoes
  signalerGoes := halting.signalerGoes
  parkedParks := halting.parkedParks
  awaitsGone := halting.awaitsGone

/-- **A standstill of the primitive above is one of the primitive below**, if the calls of both go
on alike. -/
theorem relabel_standstill {pair : State × Alarm ι}
    (steps : ∀ state party move, core.step state (party, move) = sleeping.core.step state
      (party, call move))
    (covers : ∀ move, halting.internal move = true → ∃ above, call above = move)
    (still : Sleeping.Standstill (halting.relabel core call advance same) pair) :
    Sleeping.Standstill halting pair := by
  intro label next goesOn stepped
  obtain ⟨above, rfl⟩ : ∃ above : Sleeping.Label ι Move', above.rename call = label := by
    cases label with
    | move label =>
      obtain ⟨move, called⟩ := covers label.2 goesOn
      exact ⟨.move (label.1, move), by rw [Sleeping.Label.rename, called]⟩
    | wake party => exact ⟨.wake party, rfl⟩
    | unpark party => exact ⟨.unpark party, rfl⟩
    | again party => exact ⟨.again party, rfl⟩
    | spurious | stray => exact goesOn.elim
  have goes : Sleeping.GoesOn (halting.relabel core call advance same).internal above := by
    cases above <;> exact goesOn
  obtain ⟨unchanged, party, move, rfl, spins⟩ :=
    still above next goes ((Sleeping.relabel_step steps pair above).trans stepped)
  exact ⟨unchanged, party, call move, rfl, spins⟩

end Relabel

end Halting

end Xutex
