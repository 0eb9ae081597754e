/-
**Sleepers: parked threads, pending tasks, and the signalers that owe them a call.**

The machines of the primitives end a wait with the value of the node. What remains is that somebody
looks at it: a thread is in `park`, a task is not polled, until `signal_node` calls `unpark` or
`wake` after it has written the value. This module adds those calls to any machine that keeps the
discipline of `Waiters`.

* `Alarm` — what the signalers have taken from the waker slots and the calls they still owe, the
  park tokens and the threads that have returned from `park`, the waker of every party's latest poll
  and whether it was woken since.
* `Sleeping.machine` — a primitive with its sleepers. A signaler that has published a value makes
  its call before anything else; a thread at `park` goes on only with its token or spuriously, and
  looks at its node again.
* `NodeRole` — what a program point means for the waker slot of the party's own node; `Turn` lists
  what a step can do to it.
* `Fits` — **the invariant**: the slot of a linked node holds what wakes its owner, until its
  signaler has taken it; then the signaler has it, then it owes the call, then the call was made.
* `Sleeping.fits_of_reachable` — every step of a primitive that is one of the turns keeps the
  invariant.

The condition `Rearmed` is about polls that come between the signaler's `take` and the value: the
first one finds the slot empty and wakes itself, and any later one would be told `Armed` by a slot
that nobody reads any more, so its waker has to be the one that the signaler took.
-/

import Xutex.Concurrency.Runs
import Xutex.Core.Waiters

set_option linter.unusedSectionVars false

namespace Xutex

open Concurrency Discipline

/-! ### Tokens, wakers and debts -/

/-- Whom a signaler has to wake. -/
inductive Target (ι : Type)
  | thread (party : ι)
  | task (waker : Waker)
  deriving DecidableEq

/-- What is known of the sleepers beside the state of the primitive. -/
structure Alarm (ι : Type) where
  /-- What the signaler of a node has taken from its slot. -/
  taken : ι → WakerSlot
  /-- The call that a party has to make before it goes on. -/
  owes : ι → Option (Target ι)
  /-- The park token of the thread. -/
  token : ι → Bool
  /-- The thread has returned from `park` and not yet looked at its node. -/
  awake : ι → Bool
  /-- The waker of the party's latest poll. -/
  last : ι → Waker
  /-- That waker was woken since the poll began. -/
  woken : ι → Bool

namespace Alarm

variable {ι : Type} [DecidableEq ι]

/-- Nobody sleeps. -/
def new : Alarm ι :=
  ⟨fun _ => .none, fun _ => none, fun _ => false, fun _ => false, fun _ => 0, fun _ => false⟩

/-- The call at the end of `signal_node`, on what was in the slot and on the value that was
replaced. -/
def due (slot : WakerSlot) (value : SignalValue) (node : ι) : Option (Target ι) :=
  match slot with
  | .none => none
  | .sync => if value = .initWaiting then some (.thread node) else none
  | .async waker => some (.task waker)

variable (alarm : Alarm ι) (party : ι)

/-- The party has to make a call before it goes on, or has made it. -/
def owe (debt : Option (Target ι)) :
    Alarm ι := { alarm with owes := Function.update alarm.owes party debt }

/-- A poll begins. -/
def begin (waker : Waker) : Alarm ι :=
  { alarm with
    last := Function.update alarm.last party waker,
    woken := Function.update alarm.woken party false }

/-- The slot of the node is taken. -/
def take (slot : WakerSlot) :
    Alarm ι := { alarm with taken := Function.update alarm.taken party slot }

/-- `unpark`, or the end of the token. -/
def setToken (token : Bool) :
    Alarm ι := { alarm with token := Function.update alarm.token party token }

/-- The thread has returned from `park`, or has looked at its node. -/
def setAwake (awake : Bool) :
    Alarm ι := { alarm with awake := Function.update alarm.awake party awake }

/-- `wake`: everybody whose latest poll came with this waker is woken. -/
def wake (waker : Waker) : Alarm ι :=
  { alarm with woken := fun other => alarm.woken other || decide (alarm.last other = waker) }

/-- The call that was owed is made. -/
def deliver (target : Target ι) : Alarm ι :=
  match target with
  | .thread thread => (alarm.owe party none).setToken thread true
  | .task waker => (alarm.owe party none).wake waker

/-- The waker of the party's latest poll was woken since, or is about to be. -/
def Heard : Prop := alarm.woken party = true ∨
    ∃ signaler, alarm.owes signaler = some (.task (alarm.last party))

/-- The thread does not stay in `park`. -/
def Roused : Prop :=
  alarm.awake party = true ∨ alarm.token party = true ∨
    ∃ signaler, alarm.owes signaler = some (.thread party)

end Alarm

/-! ### The roles of a node -/

/-- What a program point means for the waker slot of the party's own node. -/
inductive NodeRole
  /-- Nothing is known, and nothing is needed. -/
  | apart
  /-- A poll that has not looked at the node. -/
  | polling (waker : Waker)
  /-- The node is prepared and not linked. -/
  | armed (mode : Mode)
  /-- A thread that has not gone to sleep. -/
  | thread
  /-- A thread in the loop around `park`. -/
  | parked
  /-- A future whose latest poll is over, or is about to return `Pending`. -/
  | rest
  /-- A poll that has found no signal and has to register its waker. -/
  | register (waker : Waker)
  /-- A poll that found the slot empty and has to load the value; `rearm` may be followed by another
  look at the node. -/
  | reload (waker : Option Waker)
  /-- A drop whose node is no longer in the queue, or does not stay there. -/
  | gone
  deriving DecidableEq

/-- The role of a node that has just been linked. -/
def NodeRole.linked : Mode → NodeRole
  | .wait => .thread
  | .poll _ => .rest

section Fits

variable {ι : Type} [DecidableEq ι]

/-- What a role asks for: of the slot and the value of the node, of whether it is given away and
whether its signaler has taken the slot, and of the alarm. -/
def FitsAs (alarm : Alarm ι) (party : ι) (slot : WakerSlot) (value : SignalValue) (waits : Bool)
    (taken : Prop) : NodeRole → Prop
  | .apart | .gone => True
  | .polling waker => alarm.last party = waker ∧
    (waits = true → value.isFinal = false → ¬taken → slot ≠ .none)
  | .armed .wait => slot = .sync
  | .armed (.poll waker) => slot = .async waker ∧ alarm.last party = waker
  | .thread => value.isFinal = false → (¬taken → slot = .sync) ∧ (taken → alarm.taken party = .sync)
  | .parked => (value.isFinal = false →
      value = .initWaiting ∧ (¬taken → slot = .sync) ∧ (taken → alarm.taken party = .sync)) ∧
    (value.isFinal = true → alarm.Roused party)
  | .rest => waits = true →
    (value.isFinal = false → (¬taken → slot = .async (alarm.last party)) ∧
      (taken → alarm.taken party = .async (alarm.last party) ∨ alarm.Heard party)) ∧
    (value.isFinal = true → alarm.Heard party)
  | .register waker => alarm.last party = waker ∧
    (waits = true → value.isFinal = false → ¬taken → slot ≠ .none) ∧
    (waits = true → value.isFinal = true → alarm.taken party = .async (alarm.last party) →
      alarm.Heard party)
  | .reload again => (∀ waker ∈ again, alarm.last party = waker) ∧
    (waits = true → value.isFinal = false → taken)

variable {alarm alarm' : Alarm ι} {party : ι} {slot : WakerSlot} {value : SignalValue}
  {waits waits' : Bool} {taken taken' : Prop} {role : NodeRole}

/-- The alarm changes nothing for the party but that it may be woken. -/
structure Alarm.Louder (alarm alarm' : Alarm ι) (party : ι) : Prop where
  last : alarm'.last party = alarm.last party
  taken : alarm'.taken party = alarm.taken party
  heard : alarm.Heard party → alarm'.Heard party
  roused : alarm.Roused party → alarm'.Roused party

/-- **An alarm that is only louder fits as well.** -/
theorem FitsAs.louder (fits : FitsAs alarm party slot value waits taken role)
    (louder : alarm.Louder alarm' party)
    (same : taken' ↔ taken) (fewer : waits' = true → waits = true) :
    FitsAs alarm' party slot value waits' taken' role := by
  cases role with
  | apart | gone => trivial
  | polling waker =>
    exact ⟨louder.last.trans fits.1, fun given fresh free => fits.2 (fewer given) fresh
      (same.not.mp free)⟩
  | armed mode =>
    cases mode with
    | wait => exact fits
    | poll waker => exact ⟨fits.1, louder.last.trans fits.2⟩
  | thread =>
    intro fresh
    rw [louder.taken, same]
    exact fits fresh
  | parked =>
    refine ⟨fun fresh => ?_, fun final => louder.roused (fits.2 final)⟩
    rw [louder.taken, same]
    exact fits.1 fresh
  | rest =>
    intro given
    obtain ⟨fresh, final⟩ := fits (fewer given)
    refine ⟨fun unsignalled => ?_, fun signalled => louder.heard (final signalled)⟩
    rw [louder.taken, louder.last, same]
    exact ⟨(fresh unsignalled).1, fun took => ((fresh unsignalled).2 took).imp_right louder.heard⟩
  | register waker =>
    obtain ⟨last, full, heard⟩ := fits
    refine ⟨louder.last.trans last, fun given fresh free => full (fewer given) fresh
      (same.not.mp free), ?_⟩
    rw [louder.taken, louder.last]
    exact fun given final took => louder.heard (heard (fewer given) final took)
  | reload again =>
    exact ⟨fun waker member => louder.last.trans (fits.1 waker member),
      fun given fresh => same.mpr (fits.2 (fewer given) fresh)⟩

/-- **The signaler takes the slot**, which holds what wakes the owner. -/
theorem FitsAs.take (fits : FitsAs alarm party slot value true taken role) (free : ¬taken)
    (unsignalled : value.isFinal = false) (unarmed : ∀ mode, role ≠ .armed mode) {slot' : WakerSlot}
    (last : alarm'.last party = alarm.last party) (moved : alarm'.taken party = slot)
    (took : taken') : FitsAs alarm' party slot' value true taken' role := by
  have silent {P : Prop} (final : value.isFinal = true) : P := by
    rw [unsignalled] at final
    cases final
  cases role with
  | apart | gone => trivial
  | polling waker => exact ⟨last.trans fits.1, fun _ _ free' => absurd took free'⟩
  | armed mode => exact absurd rfl (unarmed mode)
  | thread => exact fun fresh =>
    ⟨fun free' => absurd took free', fun _ => moved.trans ((fits fresh).1 free)⟩
  | parked =>
    refine ⟨fun fresh => ?_, silent⟩
    obtain ⟨marked, sync, -⟩ := fits.1 fresh
    exact ⟨marked, fun free' => absurd took free', fun _ => moved.trans (sync free)⟩
  | rest =>
    refine fun _ => ⟨fun fresh => ⟨fun free' => absurd took free', fun _ => .inl ?_⟩, silent⟩
    rw [moved, last]
    exact ((fits rfl).1 fresh).1 free
  | register waker => exact ⟨last.trans fits.1, fun _ _ free' => absurd took free', fun _ => silent⟩
  | reload again => exact absurd (fits.2 rfl unsignalled) free

/-- A new debt of a party that had none. -/
theorem Alarm.louder_owe (alarm : Alarm ι) {signaler : ι} (settled : alarm.owes signaler = none)
    (debt : Option (Target ι)) (party : ι) :
    alarm.Louder (alarm.owe signaler debt) party := by
  have kept {other : ι} {target : Target ι} (owed : alarm.owes other = some target) :
      Function.update alarm.owes signaler debt other = some target := by
    have different : other ≠ signaler := by
      rintro rfl
      rw [settled] at owed
      cases owed
    rw [Function.update_of_ne different, owed]
  exact ⟨rfl, rfl, Or.imp_right fun ⟨other, owed⟩ => ⟨other, kept owed⟩,
    Or.imp_right (Or.imp_right fun ⟨other, owed⟩ => ⟨other, kept owed⟩)⟩

/-- **The signaler publishes the value**, and owes the call for what it has taken. -/
theorem FitsAs.publish (fits : FitsAs alarm party slot value true taken role) (took : taken)
    (unsignalled : value.isFinal = false) {signaler : ι} (settled : alarm.owes signaler = none)
    (unarmed : ∀ mode, role ≠ .armed mode) {value' : SignalValue} (final : value'.isFinal = true) :
    FitsAs (alarm.owe signaler (Alarm.due (alarm.taken party) value party))
      party slot value' true taken' role := by
  have louder := alarm.louder_owe settled (Alarm.due (alarm.taken party) value party) party
  have debt : (alarm.owe signaler (Alarm.due (alarm.taken party) value party)).owes signaler =
      Alarm.due (alarm.taken party) value party := Function.update_self _ _ _
  have owed (task : alarm.taken party = .async (alarm.last party)) :
      (alarm.owe signaler (Alarm.due (alarm.taken party) value party)).Heard party := by
    refine .inr ⟨signaler, ?_⟩
    rw [debt, task]
    rfl
  have landed {P : Prop} (fresh : value'.isFinal = false) : P := by
    rw [final] at fresh
    cases fresh
  cases role with
  | apart | gone => trivial
  | polling waker => exact ⟨fits.1, fun _ => landed⟩
  | armed mode => exact absurd rfl (unarmed mode)
  | thread => exact landed
  | parked =>
    refine ⟨landed, fun _ => .inr (.inr ⟨signaler, ?_⟩)⟩
    obtain ⟨marked, -, sync⟩ := fits.1 unsignalled
    rw [debt, sync took, marked]
    rfl
  | rest =>
    refine fun _ => ⟨landed, fun _ => ?_⟩
    rcases ((fits rfl).1 unsignalled).2 took with task | heard
    · exact owed task
    · exact louder.heard heard
  | register waker => exact ⟨fits.1, fun _ => landed, fun _ _ task => owed task⟩
  | reload again => exact ⟨fits.1, fun _ => landed⟩

end Fits

/-! ### A primitive with its sleepers -/

/-- What a primitive declares about waking. -/
structure Sleeping (State ι Pc Move : Type) where
  core : System State (ι × Move)
  discipline : Discipline ι Pc
  signal : State → ι → Signal
  pc : State → ι → Pc
  /-- The move by which a call goes on. -/
  advance : Move
  /-- The waker of the poll that a move begins. -/
  polls : Move → Option Waker
  roleAt : Pc → NodeRole
  /-- The wait queue of the primitive. -/
  shows : State → WaitQueue ι → Prop
  /-- The node of the party is in the queue, and nobody has to pop it yet. -/
  stays : State → ι → Prop
  /-- `waker.take` of `signal_node`, on the node of another party. -/
  takes : Pc → Option ι
  /-- The value store of `signal_node`. -/
  publishes : Pc → Option ι
  /-- `waker.register` of `rearm`. -/
  registers : Pc → Option Waker
  takesChain : ∀ {pc node}, takes pc = some node → node ∈ discipline.chain pc
  publishesChain : ∀ {pc node}, publishes pc = some node → node ∈ discipline.chain pc
  takesOnly : ∀ {pc node}, takes pc = some node → publishes pc = none
  armedFree : ∀ {pc mode} (value : SignalValue), roleAt pc = .armed mode →
    discipline.waits pc value = false
  signalerApart : ∀ {pc}, discipline.chain pc ≠ [] → roleAt pc = .apart
  goneWaits : ∀ {pc} (value : SignalValue), roleAt pc = .gone → discipline.waits pc value = true
  advanceQuiet : polls advance = none

/-- The steps of the primitive, and those of its sleepers. -/
inductive Sleeping.Label (ι Move : Type)
  /-- A step of the primitive. -/
  | move (label : ι × Move)
  /-- A party makes the call that it owes. -/
  | wake (party : ι)
  /-- `park` returns with the token of the thread. -/
  | unpark (party : ι)
  /-- `park` returns without it. -/
  | spurious (party : ι)
  /-- The thread looks at its node, finds no signal, and parks again. -/
  | again (party : ι)
  /-- Somebody else unparks the thread. -/
  | stray (party : ι)

namespace Sleeping

variable {State ι Pc Move : Type} [DecidableEq ι] (sleeping : Sleeping State ι Pc Move)

/-- The load of `rearm` comes next. -/
def reloads (pc : Pc) : Bool :=
  match sleeping.roleAt pc with
  | .reload _ => true
  | _ => false

/-- What a step of the primitive means for the sleepers. -/
def note (alarm : Alarm ι) (state : State) (label : ι × Move) : Alarm ι :=
  let here := sleeping.pc state label.1
  match sleeping.polls label.2 with
  | some waker => alarm.begin label.1 waker
  | none =>
    match sleeping.takes here with
    | some node => alarm.take node (sleeping.signal state node).waker
    | none =>
      match sleeping.publishes here with
      | some node =>
        alarm.owe label.1 (Alarm.due (alarm.taken node) (sleeping.signal state node).value node)
      | none =>
        -- `wake_by_ref` of `rearm`: the poll found the slot empty and no value
        if sleeping.reloads here && !(sleeping.signal state label.1).value.isFinal then
          alarm.owe label.1 (some (.task (alarm.last label.1)))
        else if sleeping.roleAt here = .parked then alarm.setAwake label.1 false
        else alarm

/-- One step. A party that owes a call does nothing else, and a thread in `park` only what lets it
return. -/
def step (pair : State × Alarm ι) : Label ι Move → Option (State × Alarm ι)
  | .move label =>
    if pair.2.owes label.1 = none ∧
        (sleeping.roleAt (sleeping.pc pair.1 label.1) = .parked → pair.2.awake label.1 = true) then
      (sleeping.core.step pair.1 label).map fun next => (next, sleeping.note pair.2 pair.1 label)
    else none
  | .wake party => (pair.2.owes party).map fun target => (pair.1, pair.2.deliver party target)
  | .unpark party =>
    if sleeping.roleAt (sleeping.pc pair.1 party) = .parked ∧ pair.2.awake party = false ∧
        pair.2.token party = true then
      some (pair.1, (pair.2.setToken party false).setAwake party true)
    else none
  | .spurious party =>
    if sleeping.roleAt (sleeping.pc pair.1 party) = .parked then
      some (pair.1, pair.2.setAwake party true)
    else none
  | .again party =>
    if sleeping.roleAt (sleeping.pc pair.1 party) = .parked ∧ pair.2.awake party = true ∧
        (sleeping.core.step pair.1 (party, sleeping.advance)).isNone then
      some (pair.1, pair.2.setAwake party false)
    else none
  | .stray party => some (pair.1, pair.2.setToken party true)

/-- **The primitive with its sleepers.** -/
def machine : System (State × Alarm ι) (Label ι Move) where
  init pair := sleeping.core.init pair.1 ∧ pair.2 = .new
  step := sleeping.step

/-- The signaler of the node has taken its slot and not yet published its value. -/
def Taken (state : State) (node : ι) : Prop :=
  ∃ signaler, sleeping.publishes (sleeping.pc state signaler) = some node

/-- The node is given away. -/
abbrev waits (state : State) (party : ι) : Bool :=
  sleeping.discipline.waits (sleeping.pc state party) (sleeping.signal state party).value

/-- A poll that registers after the signaler's `take` finds the slot empty, or comes with the waker
that was taken. -/
def Rearmed (state : State) (alarm : Alarm ι) (party : ι) : Prop :=
  ∀ waker, sleeping.registers (sleeping.pc state party) = some waker →
    sleeping.Taken state party ∨ (sleeping.signal state party).value.isFinal = true →
    (sleeping.signal state party).waker = .none ∨ alarm.taken party = .async waker

/-- The steps of the primitive are `allowed`, and its polls re-register as `Rearmed` asks. -/
def Permits (allowed : State → ι × Move → State → Prop) (pair : State × Alarm ι)
    (label : Label ι Move) (next : State × Alarm ι) : Prop :=
  match label with
  | .move label => allowed pair.1 label next.1 ∧ sleeping.Rearmed pair.1 pair.2 label.1
  | .wake _ | .unpark _ | .spurious _ | .again _ | .stray _ => True

/-- The condition as a test, for runs in which nobody registers again. -/
def permits (check : State → ι × Move → State → Bool) (pair : State × Alarm ι)
    (label : Label ι Move) (next : State × Alarm ι) : Bool :=
  match label with
  | .move label =>
    check pair.1 label next.1 && (sleeping.registers (sleeping.pc pair.1 label.1)).isNone
  | .wake _ | .unpark _ | .spurious _ | .again _ | .stray _ => true

theorem permits_of_test {check : State → ι × Move → State → Bool} {pair next : State × Alarm ι}
    {label : Label ι Move} (passed : sleeping.permits check pair label next = true) :
    sleeping.Permits (fun state label next => check state label next = true) pair label next := by
  cases label with
  | move label =>
    obtain ⟨checked, silent⟩ := (Bool.and_eq_true _ _).mp passed
    refine ⟨checked, fun waker registers => ?_⟩
    rw [registers] at silent
    cases silent
  | wake _ | unpark _ | spurious _ | again _ | stray _ => trivial

/-- A reachable state by computation, in a run in which nobody registers again. -/
theorem exists_reachable_of_run (check : State → ι × Move → State → Bool)
    (test : State × Alarm ι → Bool)
    {pair : State × Alarm ι} (initial : sleeping.machine.init pair) (labels : List (Label ι Move))
    (passes : (sleeping.machine.run (sleeping.permits check) pair labels).any test = true) :
    ∃ last, sleeping.machine.ReachableBy
      (sleeping.Permits fun state label next => check state label next = true) last ∧
      test last = true := by
  obtain ⟨last, reach, tested⟩ :=
    System.exists_reachableBy_of_run sleeping.machine (sleeping.permits check)
      test initial labels passes
  exact ⟨last, reach.mono fun _ _ _ => sleeping.permits_of_test, tested⟩

/-! ### What a step does to the node of the party that takes it -/

/-- **What a step of the primitive does to the role and the slot of the party's own node**, at
`here` before and at `there` after it; `stays` says that the node may stay in the queue, and `begun`
is the waker of the poll that the step begins. -/
inductive Turn (here there : Pc) (before after : Signal) (stays : Prop) (begun : Option Waker) :
    NodeRole → NodeRole → Prop
  | apart {role : NodeRole} : Turn here there before after stays begun role .apart
  | done {role : NodeRole} (gone : sleeping.discipline.waits there after.value = false) :
      Turn here there before after stays begun role .rest
  | begins {waker : Waker} (poll : begun = some waker) (same : after = before)
      (waits : sleeping.discipline.waits there after.value →
      sleeping.discipline.waits here before.value) : Turn here there before after stays begun .rest
      (.polling waker)
  | looks {waker : Waker} {role : NodeRole}
      (poll : role = .rest ∧ begun = some waker ∨ role = .polling waker ∧ begun = none)
      (fresh : before.value.isFinal = false) (same : after = before)
      (waits : sleeping.discipline.waits there after.value →
        sleeping.discipline.waits here before.value) :
      Turn here there before after stays begun role (.register waker)
  | same {role : NodeRole} (quiet : begun = none) (upright : role ≠ .parked)
      (slot : after.waker = before.waker) (value : after.value = before.value)
      (waits : sleeping.discipline.waits there after.value →
        sleeping.discipline.waits here before.value) :
      Turn here there before after stays begun role role
  | armThread {role : NodeRole} (slot : after.waker = .sync) :
      Turn here there before after stays begun role (.armed .wait)
  | armTask {waker : Waker} (quiet : begun = none) (slot : after.waker = .async waker) :
      Turn here there before after stays begun (.polling waker) (.armed (.poll waker))
  | push {mode : Mode} (quiet : begun = none) (slot : after.waker = before.waker)
      (unsignalled : after.value.isFinal = false) :
      Turn here there before after stays begun (.armed mode) (.linked mode)
  | sleep (quiet : begun = none) (slot : after.waker = before.waker)
    (fresh : before.value.isFinal = false)
      (marked : after.value = .initWaiting) :
      Turn here there before after stays begun .thread .parked
  | rearm {waker : Waker} (quiet : begun = none) (registers : sleeping.registers here = some waker)
      (full : before.waker ≠ .none) (slot : after.waker = .async waker)
      (value : after.value = before.value)
      (waits : sleeping.discipline.waits there after.value →
        sleeping.discipline.waits here before.value) :
      Turn here there before after stays begun (.register waker) .rest
  | refill {waker : Waker} {again : Option Waker} (quiet : begun = none)
    (own : ∀ other ∈ again, other = waker)
      (empty : before.waker = .none) (value : after.value = before.value)
      (waits : sleeping.discipline.waits there after.value →
        sleeping.discipline.waits here before.value) :
      Turn here there before after stays begun (.register waker) (.reload again)
  | wakeSelf {again : Option Waker} (quiet : begun = none) (fresh : before.value.isFinal = false)
      (value : after.value = before.value)
      (waits : sleeping.discipline.waits there after.value →
        sleeping.discipline.waits here before.value) :
      Turn here there before after stays begun (.reload again) .rest
  | reread {waker : Waker} (quiet : begun = none) (final : before.value.isFinal = true)
    (same : after = before)
      (waits : sleeping.discipline.waits there after.value →
      sleeping.discipline.waits here before.value) : Turn here there before after stays begun
      (.reload (some waker)) (.polling waker)
  | retry {waker : Waker} {role : NodeRole} (quiet : begun = none)
      (carries : role = .polling waker ∨ role = .armed (.poll waker))
      (gone : sleeping.discipline.waits there after.value = false) :
      Turn here there before after stays begun role (.polling waker)
  | missing {role : NodeRole} (leaves : ¬stays)
    (given : sleeping.discipline.waits here before.value = true) :
      Turn here there before after stays begun role .gone

/-- **A step of `party`**, as far as the sleepers are concerned. -/
structure Turned (state next : State) (label : ι × Move) : Prop where
  rest : ∀ other, other ≠ label.1 → sleeping.pc next other = sleeping.pc state other
  values : ∀ other, other ≠ label.1 → sleeping.publishes (sleeping.pc state label.1) ≠ some other →
    (sleeping.signal next other).value = (sleeping.signal state other).value
  slots : ∀ other, other ≠ label.1 → sleeping.takes (sleeping.pc state label.1) ≠ some other →
    (sleeping.signal next other).waker = (sleeping.signal state other).waker
  published : ∀ node, sleeping.publishes (sleeping.pc state label.1) = some node →
    (sleeping.signal next node).value.isFinal = true
  flight : ∀ node, sleeping.publishes (sleeping.pc next label.1) = some node ↔
    sleeping.takes (sleeping.pc state label.1) = some node
  /-- A signaler makes no poll. -/
  signaler : ∀ node, sleeping.takes (sleeping.pc state label.1) = some node ∨
    sleeping.publishes (sleeping.pc state label.1) = some node → sleeping.polls label.2 = none
  turn : sleeping.Turn (sleeping.pc state label.1) (sleeping.pc next label.1)
    (sleeping.signal state label.1)
    (sleeping.signal next label.1) (sleeping.stays state label.1) (sleeping.polls label.2)
    (sleeping.roleAt (sleeping.pc state label.1)) (sleeping.roleAt (sleeping.pc next label.1))

section Turned

variable {sleeping} {state next : State} {party node : ι} {here there : Pc} {move : Move}
  {written : Signal}

/-- A step that works on the party's own node only. -/
theorem Turned.own (source : sleeping.pc state party = here)
    (pcs : sleeping.pc next = Function.update (sleeping.pc state) party there)
    (signals : sleeping.signal next = Function.update (sleeping.signal state) party written)
    (quiet : sleeping.takes here = none ∧ sleeping.publishes here = none ∧
      sleeping.publishes there = none)
    (turn : sleeping.Turn here there (sleeping.signal state party) written
      (sleeping.stays state party)
      (sleeping.polls move) (sleeping.roleAt here) (sleeping.roleAt there)) :
    sleeping.Turned state next (party, move) := by
  obtain ⟨untaken, unpublished, silent⟩ := quiet
  subst source
  have target : sleeping.pc next party = there := by rw [pcs, Function.update_self]
  have signal (other : ι) (different : other ≠ party) :
      sleeping.signal next other = sleeping.signal state other := by
    rw [signals, Function.update_of_ne different]
  refine ⟨fun other different => ?_, fun other different _ => ?_, fun other different _ => ?_,
    fun node publishes => ?_, fun node => ?_, fun node busy => ?_, ?_⟩
  · rw [pcs, Function.update_of_ne different]
  · rw [signal other different]
  · rw [signal other different]
  · rw [unpublished] at publishes
    cases publishes
  · rw [target, silent, untaken]
  · rw [untaken, unpublished] at busy
    rcases busy with busy | busy <;> cases busy
  · rw [target, signals, Function.update_self]
    exact turn

section

variable (source : sleeping.pc state party = here)
  (pcs : sleeping.pc next = Function.update (sleeping.pc state) party there)
  (signals : sleeping.signal next = sleeping.signal state)
  (quiet : sleeping.takes here = none ∧ sleeping.publishes here = none ∧
    sleeping.publishes there = none)
include source pcs signals quiet

/-- A step that works on no node. -/
theorem Turned.goto
    (turn : sleeping.Turn here there (sleeping.signal state party) (sleeping.signal state party)
      (sleeping.stays state party) (sleeping.polls move) (sleeping.roleAt here)
      (sleeping.roleAt there)) : sleeping.Turned state next (party, move) :=
  .own source pcs (signals.trans (Function.update_eq_self party _).symm) quiet turn

/-- A step after which the party's own node does not matter. -/
theorem Turned.apart (apart : sleeping.roleAt there = .apart) :
    sleeping.Turned state next (party, move) := by
  refine .goto source pcs signals quiet ?_
  rw [apart]
  exact .apart

/-- A prepared node stays as it is. -/
theorem Turned.armed {mode : Mode} (advances : sleeping.polls move = none)
    (armed : sleeping.roleAt here = .armed mode) (stays : sleeping.roleAt there = .armed mode) :
    sleeping.Turned state next (party, move) := by
  refine .goto source pcs signals quiet ?_
  rw [armed, stays]
  exact .same advances NodeRole.noConfusion rfl rfl fun given =>
    never ((sleeping.armedFree _ stays).symm.trans given)

end

/-- `register` answers `Armed` for a slot in which it found something. -/
theorem full_of_armed {signal : Signal} {waker : Waker} (armed : signal.registered waker = .armed) :
    signal.waker ≠ .none := by
  intro empty
  have found : signal.registered waker = .wasEmpty := (storeAsync_wasEmpty_iff _ _).mpr empty
  rw [armed] at found
  cases found

/-- `waker.take` of `signal_node`. -/
theorem Turned.take (source : sleeping.pc state party = here)
    (pcs : sleeping.pc next = Function.update (sleeping.pc state) party there)
    (signals : sleeping.signal next =
      Function.update (sleeping.signal state) node (sleeping.signal state node).take)
    (takes : sleeping.takes here = some node) (publishes : sleeping.publishes there = some node)
    (quiet : sleeping.polls move = none) :
    sleeping.Turned state next (party, move) := by
  subst source
  have target : sleeping.pc next party = there := by rw [pcs, Function.update_self]
  have unpublished := sleeping.takesOnly takes
  refine ⟨fun other different => ?_, fun other different _ => ?_, fun other different untaken => ?_,
    fun node published => ?_, fun other => ?_, fun _ _ => quiet, ?_⟩
  · rw [pcs, Function.update_of_ne different]
  · rw [signals]
    by_cases same : other = node
    · rw [same, Function.update_self, Signal.take_value]
    · rw [Function.update_of_ne same]
  · rw [signals, Function.update_of_ne]
    rintro rfl
    exact untaken takes
  · rw [unpublished] at published
    cases published
  · rw [target, publishes, takes]
  · rw [target, sleeping.signalerApart (List.ne_nil_of_mem (sleeping.publishesChain publishes))]
    exact .apart

/-- The value store of `signal_node`. -/
theorem Turned.publish (source : sleeping.pc state party = here)
    (pcs : sleeping.pc next = Function.update (sleeping.pc state) party there)
    {value : SignalValue} (final : value.isFinal = true)
    (signals : sleeping.signal next =
      Function.update (sleeping.signal state) node ((sleeping.signal state node).setValue value))
    (untaken : sleeping.takes here = none) (publishes : sleeping.publishes here = some node)
    (silent : sleeping.publishes there = none) (quiet : sleeping.polls move = none)
    (turn : sleeping.Turn here there (sleeping.signal state party) (sleeping.signal next party)
      (sleeping.stays state party) (sleeping.polls move) (sleeping.roleAt here)
      (sleeping.roleAt there)) :
    sleeping.Turned state next (party, move) := by
  subst source
  have target : sleeping.pc next party = there := by rw [pcs, Function.update_self]
  refine ⟨fun other different => ?_, fun other different unpublished => ?_,
    fun other different _ => ?_, fun other published => ?_, fun other => ?_, fun _ _ => quiet, ?_⟩
  · rw [pcs, Function.update_of_ne different]
  · rw [signals, Function.update_of_ne]
    rintro rfl
    exact unpublished publishes
  · rw [signals]
    by_cases same : other = node
    · rw [same, Function.update_self]
      rfl
    · rw [Function.update_of_ne same]
  · obtain rfl := Option.some.inj (publishes.symm.trans published)
    rw [signals, Function.update_self]
    exact final
  · rw [target, silent, untaken]
  · rw [target]
    exact turn

end Turned

/-! ### Every step keeps the invariant -/

/-- **The invariant**, for one party. -/
def Fits (state : State) (alarm : Alarm ι) (party : ι) : Prop :=
  FitsAs alarm party (sleeping.signal state party).waker (sleeping.signal state party).value
    (sleeping.waits state party) (sleeping.Taken state party)
    (sleeping.roleAt (sleeping.pc state party))

/-- The discipline of the queue holds, whatever is linked. -/
def Disciplined (state : State) : Prop :=
  ∃ queue, sleeping.discipline.Kept ⟨queue, sleeping.signal state, sleeping.pc state⟩

variable {sleeping} {state next : State} {alarm alarm' : Alarm ι} {label : ι × Move}
  {party other node : ι}

/-- A node in the hands of a signaler is another party's, given away and not signalled. -/
theorem Disciplined.popped (disciplined : sleeping.Disciplined state)
    (chained : node ∈ sleeping.discipline.chain (sleeping.pc state party)) :
    node ≠ party ∧ sleeping.waits state node = true ∧ (sleeping.signal state node).value.isFinal =
      false := by
  obtain ⟨queue, kept⟩ := disciplined
  obtain ⟨waits, unsignalled, -⟩ := kept.popped chained
  refine ⟨?_, waits, unsignalled⟩
  rintro rfl
  have free := sleeping.discipline.signalerFree (sleeping.signal state node).value
    (List.ne_nil_of_mem chained)
  have given : sleeping.discipline.waits (sleeping.pc state node)
      (sleeping.signal state node).value = true := waits
  rw [free] at given
  cases given

/-- A node is in the hands of one signaler. -/
theorem Disciplined.unique (disciplined : sleeping.Disciplined state)
    (first : node ∈ sleeping.discipline.chain (sleeping.pc state party))
    (second : node ∈ sleeping.discipline.chain (sleeping.pc state other)) : party = other := by
  obtain ⟨queue, kept⟩ := disciplined
  exact kept.placed.chain_unique party other node first second

/-- A party whose own node matters is no signaler. -/
theorem quiet_of_role {pc : Pc} (involved : sleeping.roleAt pc ≠ .apart) :
    sleeping.takes pc = none ∧ sleeping.publishes pc = none := by
  have unchained : sleeping.discipline.chain pc = [] := by
    by_contra busy
    exact involved (sleeping.signalerApart busy)
  constructor
  · refine Option.eq_none_iff_forall_ne_some.mpr fun node takes => ?_
    have member := sleeping.takesChain takes
    rw [unchained] at member
    cases member
  · refine Option.eq_none_iff_forall_ne_some.mpr fun node publishes => ?_
    have member := sleeping.publishesChain publishes
    rw [unchained] at member
    cases member

/-- Whose slot is taken, after a step that neither takes nor publishes the node. -/
theorem Turned.taken_iff (turned : sleeping.Turned state next label)
    (untaken : sleeping.takes (sleeping.pc state label.1) ≠ some node)
    (unpublished : sleeping.publishes (sleeping.pc state label.1) ≠ some node) :
    sleeping.Taken next node ↔ sleeping.Taken state node := by
  constructor
  · rintro ⟨signaler, holds⟩
    by_cases self : signaler = label.1
    · rw [self] at holds
      exact absurd ((turned.flight node).mp holds) untaken
    · exact ⟨signaler, turned.rest signaler self ▸ holds⟩
  · rintro ⟨signaler, holds⟩
    by_cases self : signaler = label.1
    · rw [self] at holds
      exact absurd holds unpublished
    · exact ⟨signaler, (turned.rest signaler self).symm ▸ holds⟩

/-- The alarm of a party whose slot is not taken, after a step of another. -/
theorem note_louder (settled : alarm.owes label.1 = none) (different : other ≠ label.1)
    (untaken : sleeping.takes (sleeping.pc state label.1) ≠ some other) :
    alarm.Louder (sleeping.note alarm state label) other := by
  unfold note
  dsimp only
  split
  · rename_i waker _
    have last : (alarm.begin label.1 waker).last other = alarm.last other :=
      Function.update_of_ne different _ _
    have woken : (alarm.begin label.1 waker).woken other = alarm.woken other :=
      Function.update_of_ne different _ _
    refine ⟨last, rfl, fun heard => ?_, id⟩
    unfold Alarm.Heard
    rw [last, woken]
    exact heard
  · split
    · rename_i node takes
      have different : other ≠ node := fun same => untaken (same ▸ takes)
      exact ⟨rfl, Function.update_of_ne different _ _, id, id⟩
    · split
      · exact alarm.louder_owe settled _ other
      · split
        · exact alarm.louder_owe settled _ other
        · split
          · refine ⟨rfl, rfl, id, Or.imp_left fun awake => ?_⟩
            exact (Function.update_of_ne different _ _).trans awake
          · exact ⟨rfl, rfl, id, id⟩

/-- The alarm of the party itself, after a step that is no poll and no return from `park`. -/
theorem note_louder_self (settled : alarm.owes label.1 = none)
    (quiet : sleeping.polls label.2 = none)
    (upright : sleeping.roleAt (sleeping.pc state label.1) ≠ .parked)
    (untaken : sleeping.takes (sleeping.pc state label.1) ≠ some label.1) :
    alarm.Louder (sleeping.note alarm state label) label.1 := by
  unfold note
  dsimp only
  rw [quiet]
  dsimp only
  split
  · rename_i node takes
    have different : label.1 ≠ node := fun same => untaken (takes.trans (congrArg some same.symm))
    exact ⟨rfl, Function.update_of_ne different _ _, id, id⟩
  · split
    · exact alarm.louder_owe settled _ _
    · split
      · exact alarm.louder_owe settled _ _
      · exact ⟨rfl, rfl, id, id⟩

/-- **A step of another party.** -/
theorem Turned.fits_other (turned : sleeping.Turned state next label)
    (disciplined : sleeping.Disciplined state)
    (settled : alarm.owes label.1 = none) (different : other ≠ label.1)
    (fits : sleeping.Fits state alarm other) :
    sleeping.Fits next (sleeping.note alarm state label) other := by
  have place := turned.rest other different
  have unarmed (given : sleeping.waits state other = true) (mode : Mode) :
      sleeping.roleAt (sleeping.pc state other) ≠ .armed mode := fun armed => by
    have free := sleeping.armedFree (sleeping.signal state other).value armed
    have given : sleeping.discipline.waits (sleeping.pc state other)
        (sleeping.signal state other).value = true := given
    rw [free] at given
    cases given
  unfold Fits at fits ⊢
  rw [place]
  by_cases takes : sleeping.takes (sleeping.pc state label.1) = some other
  · have chained := sleeping.takesChain takes
    obtain ⟨-, given, unsignalled⟩ := disciplined.popped chained
    have unpublished : sleeping.publishes (sleeping.pc state label.1) ≠ some other := by
      rw [sleeping.takesOnly takes]
      exact Option.some_ne_none other |>.symm
    have free : ¬sleeping.Taken state other := fun ⟨signaler, publishes⟩ => by
      obtain rfl := disciplined.unique chained (sleeping.publishesChain publishes)
      exact unpublished publishes
    have value := turned.values other different unpublished
    have given' : sleeping.waits next other = true := by
      rw [waits, place, value]
      exact given
    have noted :
        sleeping.note alarm state label = alarm.take other (sleeping.signal state other).waker := by
      simp [note, turned.signaler other (.inl takes), takes]
    rw [given] at fits
    rw [given', value, noted]
    exact fits.take free unsignalled (unarmed given) rfl (Function.update_self _ _ _)
      ⟨label.1, (turned.flight other).mpr takes⟩
  · have slot := turned.slots other different takes
    by_cases publishes : sleeping.publishes (sleeping.pc state label.1) = some other
    · have chained := sleeping.publishesChain publishes
      obtain ⟨-, given, unsignalled⟩ := disciplined.popped chained
      have untaken : sleeping.takes (sleeping.pc state label.1) = none := by
        cases none : sleeping.takes (sleeping.pc state label.1) with
        | none => rfl
        | some node =>
          rw [sleeping.takesOnly none] at publishes
          cases publishes
      have noted : sleeping.note alarm state label = alarm.owe label.1
          (Alarm.due (alarm.taken other) (sleeping.signal state other).value other) := by
        simp [note, turned.signaler other (.inr publishes), untaken, publishes]
      rw [given] at fits
      rw [slot, noted]
      refine FitsAs.louder (fits.publish ⟨label.1, publishes⟩ unsignalled settled (unarmed given)
        (turned.published other publishes)) ⟨rfl, rfl, id, id⟩ Iff.rfl fun _ => rfl
    · have value := turned.values other different publishes
      rw [slot, value]
      refine fits.louder (note_louder settled different takes) (turned.taken_iff takes publishes) ?_
      rw [waits, place, value]
      exact id

/-- Nobody takes or publishes its own node. -/
theorem Disciplined.self (disciplined : sleeping.Disciplined state) (party : ι) :
    sleeping.takes (sleeping.pc state party) ≠ some party ∧
      sleeping.publishes (sleeping.pc state party) ≠ some party :=
  ⟨fun takes => (disciplined.popped (sleeping.takesChain takes)).1 rfl,
    fun publishes => (disciplined.popped (sleeping.publishesChain publishes)).1 rfl⟩

/-- A node that is not given away is in nobody's hands. -/
theorem Disciplined.untaken (disciplined : sleeping.Disciplined state)
    (free : sleeping.waits state party = false) :
    ¬sleeping.Taken state party := fun ⟨_, publishes⟩ => by
  obtain ⟨-, given, -⟩ := disciplined.popped (sleeping.publishesChain publishes)
  rw [free] at given
  cases given

/-- **A step of the party itself.** -/
theorem Turned.fits_self (turned : sleeping.Turned state next label)
    (disciplined : sleeping.Disciplined state)
    (settled : alarm.owes label.1 = none) (rearmed : sleeping.Rearmed state alarm label.1)
    (fits : sleeping.Fits state alarm label.1) :
    sleeping.Fits next (sleeping.note alarm state label) label.1 := by
  obtain ⟨untaken, unpublished⟩ := disciplined.self label.1
  have took : sleeping.Taken next label.1 ↔ sleeping.Taken state label.1 :=
    turned.taken_iff untaken unpublished
  have louder (quiet : sleeping.polls label.2 = none)
      (upright : sleeping.roleAt (sleeping.pc state label.1) ≠ .parked) :
      alarm.Louder (sleeping.note alarm state label) label.1 :=
        note_louder_self settled quiet upright untaken
  have turn := turned.turn
  unfold Fits at fits ⊢
  generalize before : sleeping.roleAt (sleeping.pc state label.1) = role at turn fits
  generalize sleeping.roleAt (sleeping.pc next label.1) = role' at turn
  have upright {role : NodeRole} (here : sleeping.roleAt (sleeping.pc state label.1) = role)
      (notParked : role ≠ .parked) : sleeping.roleAt (sleeping.pc state label.1) ≠ .parked :=
      here ▸ notParked
  have begun {waker : Waker} (poll : sleeping.polls label.2 = some waker) :
      (sleeping.note alarm state label).last label.1 = waker := by
    simp [note, poll, Alarm.begin]
  cases turn with
  | apart | missing => trivial
  | done gone => exact fun given => never (gone.symm.trans given)
  | begins poll same waits =>
    refine ⟨begun poll, fun given fresh free => ?_⟩
    rw [same] at fresh ⊢
    rw [(((fits (waits given)).1 fresh).1 (took.not.mp free))]
    exact WakerSlot.noConfusion
  | looks poll fresh same waits =>
    rcases poll with ⟨rfl, poll⟩ | ⟨rfl, quiet⟩
    · refine ⟨begun poll, fun given _ free => ?_, fun _ final => ?_⟩
      · rw [same, (((fits (waits given)).1 fresh).1 (took.not.mp free))]
        exact WakerSlot.noConfusion
      · rw [same, fresh] at final
        cases final
    · have louder := louder quiet (upright before NodeRole.noConfusion)
      refine ⟨louder.last.trans fits.1, fun given _ free => ?_, fun _ final => ?_⟩
      · rw [same]
        exact fits.2 (waits given) fresh (took.not.mp free)
      · rw [same, fresh] at final
        cases final
  | same quiet notParked slot value waits =>
    rw [slot, value]
    exact fits.louder (louder quiet (upright before notParked)) took waits
  | armThread slot => exact slot
  | armTask quiet slot =>
    exact ⟨slot, (louder quiet (upright before NodeRole.noConfusion)).last.trans fits.1⟩
  | @push mode quiet slot unsignalled =>
    have louder := louder quiet (upright before NodeRole.noConfusion)
    have free : ¬sleeping.Taken next label.1 :=
      took.not.mpr (disciplined.untaken (sleeping.armedFree _ before))
    cases mode with
    | wait => exact fun _ => ⟨fun _ => slot.trans fits, fun never => absurd never free⟩
    | poll waker =>
      refine fun _ => ⟨fun _ => ⟨fun _ => ?_, fun never => absurd never free⟩, fun final => ?_⟩
      · rw [slot, louder.last, fits.1, fits.2]
      · rw [unsignalled] at final
        cases final
  | sleep quiet slot fresh marked =>
    have louder := louder quiet (upright before NodeRole.noConfusion)
    rw [marked, slot]
    refine ⟨fun _ => ⟨rfl, ?_⟩, never⟩
    rw [louder.taken, took]
    exact fits fresh
  | @rearm waker quiet registers full slot value waits =>
    have louder := louder quiet (upright before NodeRole.noConfusion)
    obtain ⟨last, -, heard⟩ := fits
    have carried (late : sleeping.Taken state label.1 ∨
        (sleeping.signal state label.1).value.isFinal = true) :
        alarm.taken label.1 = .async (alarm.last label.1) := by
      rw [last]
      exact (rearmed waker registers late).resolve_left full
    intro given
    rw [value, slot, louder.taken, louder.last, took]
    exact ⟨fun _ => ⟨fun _ => congrArg _ last.symm, fun late => .inl (carried (.inl late))⟩,
      fun final => louder.heard (heard (waits given) final (carried (.inr final)))⟩
  | refill quiet own empty value waits =>
    have louder := louder quiet (upright before NodeRole.noConfusion)
    refine ⟨fun waker member => ?_, fun given fresh => ?_⟩
    · rw [own waker member, louder.last, fits.1]
    · rw [took]
      rw [value] at fresh
      by_contra free
      exact fits.2.1 (waits given) fresh free empty
  | @wakeSelf again quiet fresh value waits =>
    have reloads : sleeping.reloads (sleeping.pc state label.1) = true := by
      rw [Sleeping.reloads, before]
    have noted : sleeping.note alarm state label = alarm.owe label.1
        (some (.task (alarm.last label.1))) := by
      have involved : sleeping.roleAt (sleeping.pc state label.1) ≠ .apart :=
        before ▸ NodeRole.noConfusion
      obtain ⟨takes, publishes⟩ := quiet_of_role involved
      simp [note, quiet, takes, publishes, reloads, fresh]
    have heard : (alarm.owe label.1 (some (.task (alarm.last label.1)))).Heard label.1 :=
      .inr ⟨label.1, Function.update_self _ _ _⟩
    rw [noted]
    refine fun given => ⟨fun _ => ⟨fun free => ?_, fun _ => .inr heard⟩, fun _ => heard⟩
    exact absurd (took.mpr (fits.2 (waits given) fresh)) free
  | reread quiet final same waits =>
    have louder := louder quiet (upright before NodeRole.noConfusion)
    refine ⟨louder.last.trans (fits.1 _ rfl), fun _ fresh => ?_⟩
    rw [same, final] at fresh
    cases fresh
  | @retry waker _ quiet carries gone =>
    have last : alarm.last label.1 = waker := by
      rcases carries with rfl | rfl
      · exact fits.1
      · exact fits.2
    have notParked : sleeping.roleAt (sleeping.pc state label.1) ≠ .parked := by
      rcases carries with rfl | rfl
      · exact upright before NodeRole.noConfusion
      · exact upright before NodeRole.noConfusion
    exact ⟨(louder quiet notParked).last.trans last, fun given => never (gone.symm.trans given)⟩

/-- The steps of the sleepers alone: a call that was owed, a return from `park`, a token from
elsewhere. -/
theorem fits_deliver {target : Target ι} (owed : alarm.owes other = some target)
    (fits : sleeping.Fits state alarm party) :
    sleeping.Fits state (alarm.deliver other target) party := by
  refine FitsAs.louder fits ?_ Iff.rfl id
  have kept {signaler : ι} {due : Target ι} (still : alarm.owes signaler = some due) :
      due = target ∨ (alarm.owe other none).owes signaler = some due := by
    by_cases same : signaler = other
    · rw [same, owed] at still
      exact .inl (Option.some.inj still).symm
    · exact .inr ((Function.update_of_ne same _ _).trans still)
  cases target with
  | thread thread =>
    refine ⟨rfl, rfl, Or.imp_right fun ⟨signaler, still⟩ => ⟨signaler, ?_⟩, ?_⟩
    · exact (kept still).resolve_left (by rintro ⟨⟩)
    · have tokens {one : ι} (had : alarm.token one = true) :
          Function.update alarm.token thread true one = true := by
        by_cases same : one = thread
        · rw [same, Function.update_self]
        · rw [Function.update_of_ne same, had]
      rintro (awake | token | ⟨signaler, still⟩)
      · exact .inl awake
      · exact .inr (.inl (tokens token))
      · rcases kept still with same | still
        · obtain rfl := Target.thread.inj same
          exact .inr (.inl (Function.update_self _ _ _))
        · exact .inr (.inr ⟨signaler, still⟩)
  | task waker =>
    refine ⟨rfl, rfl, ?_, Or.imp_right (Or.imp_right fun ⟨signaler, still⟩ => ⟨signaler, ?_⟩)⟩
    · rintro (woken | ⟨signaler, still⟩)
      · exact .inl (by simp [Alarm.deliver, Alarm.wake, Alarm.owe, woken])
      · rcases kept still with same | still
        · exact .inl (by simp [Alarm.deliver, Alarm.wake, Alarm.owe, Target.task.inj same])
        · exact .inr ⟨signaler, still⟩
    · exact (kept still).resolve_left (by rintro ⟨⟩)

/-- A thread returns from `park`, or is given a token. -/
theorem fits_rouse (louder : ∀ other, alarm.Roused other → alarm'.Roused other)
    (same : alarm'.last = alarm.last ∧
    alarm'.taken = alarm.taken ∧ alarm'.woken = alarm.woken ∧ alarm'.owes = alarm.owes)
    (fits : sleeping.Fits state alarm party) : sleeping.Fits state alarm' party := by
  obtain ⟨last, taken, woken, owes⟩ := same
  refine FitsAs.louder fits ⟨congrFun last _, congrFun taken _, fun heard => ?_, louder party⟩
    Iff.rfl id
  unfold Alarm.Heard
  rw [last, woken, owes]
  exact heard

theorem roused_unpark (alarm : Alarm ι) (party other : ι) (roused : alarm.Roused other) :
    ((alarm.setToken party false).setAwake party true).Roused other := by
  by_cases same : other = party
  · subst same
    exact .inl (Function.update_self _ _ _)
  · refine roused.imp (fun awake => ?_) (Or.imp_left fun token => ?_)
    · exact (Function.update_of_ne same _ _).trans awake
    · exact (Function.update_of_ne same _ _).trans token

theorem roused_spurious (alarm : Alarm ι) (party other : ι) (roused : alarm.Roused other) :
    (alarm.setAwake party true).Roused other := by
  by_cases same : other = party
  · subst same
    exact .inl (Function.update_self _ _ _)
  · exact roused.imp_left fun awake => (Function.update_of_ne same _ _).trans awake

theorem roused_stray (alarm : Alarm ι) (party other : ι) (roused : alarm.Roused other) :
    (alarm.setToken party true).Roused other := by
  refine roused.imp_right (Or.imp_left fun token => ?_)
  by_cases same : other = party
  · subst same
    exact Function.update_self _ _ _
  · exact (Function.update_of_ne same _ _).trans token

/-- A thread that finds no signal parks again. -/
theorem fits_again (fits : sleeping.Fits state alarm other)
    (parked : sleeping.roleAt (sleeping.pc state party) = .parked)
    (fresh : (sleeping.signal state party).value.isFinal = false) :
    sleeping.Fits state (alarm.setAwake party false) other := by
  by_cases same : other = party
  · subst same
    unfold Fits at fits ⊢
    rw [parked] at fits ⊢
    refine ⟨fits.1, fun final => ?_⟩
    rw [fresh] at final
    cases final
  · refine FitsAs.louder fits ⟨rfl, rfl, id, fun roused => ?_⟩ Iff.rfl id
    exact roused.imp_left fun awake => (Function.update_of_ne same _ _).trans awake

/-! ### Reachable states -/

section Queue

variable {before after : Waiters ι Pc} {discipline : Discipline ι Pc} {pc pc' : Pc}

/-- A party links nobody but itself, and not while its node is given away. -/
theorem linked_before (moves : discipline.Moves before after party pc pc')
    (given : other = party → discipline.waits pc (valueOf before party) = true)
    (linked : other ∈ after.queue.entries) : other ∈ before.queue.entries := by
  cases moves.effect with
  | own queue | acquire _ queue | release queue | publish _ _ _ queue | consume queue =>
    rw [queue] at linked
    exact linked
  | push queue _ _ _ fresh =>
    rw [queue, WaitQueue.push_entries, List.mem_append, List.mem_singleton] at linked
    refine linked.resolve_right fun self => ?_
    exact never (fresh.symm.trans (given self))
  | pop taken rest front queue =>
    rw [queue, WaitQueue.leave_entries] at linked
    rw [front]
    exact List.mem_append_right taken linked
  | remove _ queue =>
    rw [queue, WaitQueue.remove_entries] at linked
    exact List.mem_of_mem_erase linked

end Queue

variable (sleeping) in
/-- The waiters of the primitive, with the queue that it shows. -/
abbrev waiters (state : State) (queue : WaitQueue ι) :
    Waiters ι Pc := ⟨queue, sleeping.signal state, sleeping.pc state⟩

variable (sleeping) in
/-- What a primitive proves of its steps, for the runs all of whose steps are `allowed`. -/
structure Sound (allowed : State → ι × Move → State → Prop) : Prop where
  start : ∀ {state}, sleeping.core.init state → ∀ party, sleeping.roleAt (sleeping.pc state party) =
    .apart
  /-- The queue keeps the discipline. -/
  queue : ∀ {state}, sleeping.core.ReachableBy allowed state →
    ∃ queue, sleeping.shows state queue ∧ sleeping.discipline.Kept (sleeping.waiters state queue)
  /-- A node comes to stay in the queue only when its owner links it. -/
  stays : ∀ {state label next other}, sleeping.core.ReachableBy allowed state →
    sleeping.core.step state label = some next → allowed state label next →
    (other = label.1 → sleeping.waits state other = true) → sleeping.stays next other →
      sleeping.stays state other
  turned : ∀ {state label next}, sleeping.core.ReachableBy allowed state →
    sleeping.core.step state label = some next → allowed state label next →
      sleeping.Turned state next label
  /-- A thread that parks again has not been signalled. -/
  asleep : ∀ {state party}, sleeping.core.ReachableBy allowed state →
    sleeping.roleAt (sleeping.pc state party) = .parked →
    sleeping.core.step state (party, sleeping.advance) = none →
      (sleeping.signal state party).value.isFinal = false

variable {allowed : State → ι × Move → State → Prop}

/-- **A drop that waits for its signal is right to do so.** -/
theorem Sound.leaves_of_gone (sound : sleeping.Sound allowed)
    (reach : sleeping.core.ReachableBy allowed state)
    (party : ι) (gone : sleeping.roleAt (sleeping.pc state party) = .gone) :
    ¬sleeping.stays state party := by
  revert party
  refine reach.invariant (fun state => ∀ party, sleeping.roleAt (sleeping.pc state party) = .gone →
    ¬sleeping.stays state party) ?_ ?_
  · intro state initial party gone
    rw [sound.start initial party] at gone
    cases gone
  · intro state label next before leaves stepped permitted party gone stays
    have earlier (given : party = label.1 → sleeping.waits state party = true) :
        sleeping.stays state party :=
      sound.stays before stepped permitted given stays
    have turned := sound.turned before stepped permitted
    by_cases self : party = label.1
    · subst self
      have turn := turned.turn
      generalize role : sleeping.roleAt (sleeping.pc state label.1) = here at turn
      generalize sleeping.roleAt (sleeping.pc next label.1) = there at turn gone
      cases turn with
      | same =>
        rw [gone] at role
        exact leaves label.1 role (earlier fun _ => sleeping.goneWaits _ role)
      | missing absent given => exact absent (earlier fun _ => given)
      | @push mode => cases mode <;> cases gone
      | _ => cases gone
    · rw [turned.rest party self] at gone
      exact leaves party gone (earlier fun same => absurd same self)

theorem Sound.disciplined (sound : sleeping.Sound allowed)
    (reach : sleeping.core.ReachableBy allowed state) : sleeping.Disciplined state := by
  obtain ⟨queue, -, kept⟩ := sound.queue reach
  exact ⟨queue, kept⟩

/-- The sleepers do not change what the primitive does. -/
theorem core_reachable
    (reach : sleeping.machine.ReachableBy (sleeping.Permits allowed) (state, alarm)) :
    sleeping.core.ReachableBy allowed state := by
  suffices sleeping.core.ReachableBy allowed (Prod.fst (state, alarm)) from this
  refine reach.map Prod.fst ?_ ?_
  · rintro pair ⟨initial, -⟩
    exact initial
  rintro ⟨state, alarm⟩ label ⟨next, alarm'⟩ - stepped permitted
  cases label <;> simp only [machine, step] at stepped
  case move label =>
    split at stepped
    · obtain ⟨_, moved, same⟩ := Option.map_eq_some_iff.mp stepped
      cases same
      exact .inr ⟨label, moved, permitted.1⟩
    · cases stepped
  case wake party =>
    obtain ⟨_, -, same⟩ := Option.map_eq_some_iff.mp stepped
    exact .inl (congrArg Prod.fst same).symm
  case stray party => exact .inl (congrArg Prod.fst (Option.some.inj stepped)).symm
  all_goals
    split at stepped
    · exact .inl (congrArg Prod.fst (Option.some.inj stepped)).symm
    · cases stepped

/-- **The invariant holds in every reachable state.** -/
theorem Sound.fits_of_reachable (sound : sleeping.Sound allowed)
    (reach : sleeping.machine.ReachableBy (sleeping.Permits allowed) (state, alarm)) (party : ι) :
    sleeping.Fits state alarm party := by
  revert party
  refine reach.invariant (fun pair => ∀ party, sleeping.Fits pair.1 pair.2 party) ?_ ?_
  · rintro ⟨state, alarm⟩ ⟨initial, -⟩ party
    rw [Fits, sound.start initial party]
    trivial
  · rintro ⟨state, alarm⟩ label ⟨next, alarm'⟩ before fits stepped permitted party
    have inner := core_reachable before
    cases label <;> simp only [machine, step] at stepped
    case move label =>
      split at stepped
      · rename_i ready
        obtain ⟨_, moved, same⟩ := Option.map_eq_some_iff.mp stepped
        cases same
        have turned := sound.turned inner moved permitted.1
        have disciplined := sound.disciplined inner
        by_cases self : party = label.1
        · subst self
          exact turned.fits_self disciplined ready.1 permitted.2 (fits _)
        · exact turned.fits_other disciplined ready.1 self (fits party)
      · cases stepped
    case wake signaler =>
      obtain ⟨target, owed, same⟩ := Option.map_eq_some_iff.mp stepped
      cases same
      exact fits_deliver owed (fits party)
    case stray thread =>
      cases Option.some.inj stepped
      exact fits_rouse (roused_stray alarm thread) ⟨rfl, rfl, rfl, rfl⟩ (fits party)
    case unpark thread =>
      split at stepped
      · cases Option.some.inj stepped
        exact fits_rouse (roused_unpark alarm thread) ⟨rfl, rfl, rfl, rfl⟩ (fits party)
      · cases stepped
    case spurious thread =>
      split at stepped
      · cases Option.some.inj stepped
        exact fits_rouse (roused_spurious alarm thread) ⟨rfl, rfl, rfl, rfl⟩ (fits party)
      · cases stepped
    case again thread =>
      split at stepped
      · rename_i looked
        cases Option.some.inj stepped
        exact fits_again (fits party) looked.1
          (sound.asleep inner looked.1 (Option.isNone_iff_eq_none.mp looked.2.2))
      · cases stepped

/-- **Nobody sleeps through a signal.** A parked thread whose node is signalled has its token, or is
awake, or its signaler is about to unpark it. A pending future whose node is signalled was woken
since its latest poll began, or its signaler is about to wake it. -/
theorem Sound.no_oversleeping (sound : sleeping.Sound allowed)
    (reach : sleeping.machine.ReachableBy (sleeping.Permits allowed) (state, alarm)) (party : ι)
    (final : (sleeping.signal state party).value.isFinal = true) :
    (sleeping.roleAt (sleeping.pc state party) = .parked → alarm.Roused party) ∧
      (sleeping.roleAt (sleeping.pc state party) = .rest → sleeping.waits state party = true →
        alarm.Heard party) := by
  have fits := sound.fits_of_reachable reach party
  unfold Fits at fits
  refine ⟨fun parked => ?_, fun rests given => ?_⟩
  · rw [parked] at fits
    exact fits.2 final
  · rw [rests] at fits
    exact (fits given).2 final

/-! ### A primitive that is another one, under calls of its own -/

section Relabel

variable {Move' : Type}

/-- The label of a call, as the primitive below sees it. -/
def Label.rename (call : Move' → Move) : Label ι Move' → Label ι Move
  | .move label => .move (label.1, call label.2)
  | .wake party => .wake party
  | .unpark party => .unpark party
  | .spurious party => .spurious party
  | .again party => .again party
  | .stray party => .stray party

variable (sleeping) in
/-- A primitive whose calls are those of another one. -/
def relabel (core : System State (ι × Move')) (call : Move' → Move) (advance : Move')
    (same : call advance = sleeping.advance) : Sleeping State ι Pc Move' where
  core := core
  discipline := sleeping.discipline
  signal := sleeping.signal
  pc := sleeping.pc
  advance := advance
  polls move := sleeping.polls (call move)
  roleAt := sleeping.roleAt
  shows := sleeping.shows
  stays := sleeping.stays
  takes := sleeping.takes
  publishes := sleeping.publishes
  registers := sleeping.registers
  takesChain := sleeping.takesChain
  publishesChain := sleeping.publishesChain
  takesOnly := sleeping.takesOnly
  armedFree := sleeping.armedFree
  signalerApart := sleeping.signalerApart
  goneWaits := sleeping.goneWaits
  advanceQuiet := same ▸ sleeping.advanceQuiet

variable {core : System State (ι × Move')} {call : Move' → Move} {advance : Move'}
  {same : call advance = sleeping.advance} {allowed' : State → ι × Move' → State → Prop}
  (steps : ∀ state party move, core.step state (party, move) = sleeping.core.step state
    (party, call move))

include steps

/-- The sleepers take the same steps. -/
theorem relabel_step (pair : State × Alarm ι) (label : Label ι Move') :
    (sleeping.relabel core call advance same).step pair label = sleeping.step pair
    (label.rename call) := by
  cases label with
  | move label =>
    exact congrArg (fun result => ite _ (Option.map _ result) none) (steps pair.1 label.1 label.2)
  | again party => simp only [step, Label.rename, relabel, steps, same]
  | wake | unpark | spurious | stray => rfl

/-- **A run of the primitive above is a run of the one below.** -/
theorem relabel_reachable (starts : ∀ state, core.init state → sleeping.core.init state)
    (keeps : ∀ {state party move next}, core.ReachableBy allowed' state →
      core.step state (party, move) = some next →
      allowed' state (party, move) next → allowed state (party, call move) next)
    {pair : State × Alarm ι} (reach : (sleeping.relabel core call advance same).machine.ReachableBy
      ((sleeping.relabel core call advance same).Permits allowed') pair) :
    sleeping.machine.ReachableBy (sleeping.Permits allowed) pair := by
  suffices sleeping.machine.ReachableBy (sleeping.Permits allowed) (id pair) from this
  refine reach.map id ?_ ?_
  · rintro pair ⟨initial, silent⟩
    exact ⟨starts pair.1 initial, silent⟩
  rintro ⟨state, alarm⟩ label ⟨next, alarm'⟩ before stepped permitted
  refine .inr ⟨label.rename call, (relabel_step steps _ label).symm.trans stepped, ?_⟩
  cases label with
  | move label =>
    have moved : core.step state label = some next := by
      simp only [machine, step] at stepped
      split at stepped
      · obtain ⟨_, moved, paired⟩ := Option.map_eq_some_iff.mp stepped
        cases paired
        exact moved
      · cases stepped
    exact ⟨keeps (core_reachable before) moved permitted.1, permitted.2⟩
  | wake | unpark | spurious | again | stray => trivial

end Relabel

end Sleeping

end Xutex
