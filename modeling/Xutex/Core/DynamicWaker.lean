/-
**The waker slot and its spin lock.**

The models of the primitives use the slot of a node by one step for a `register` or a `take`. Here
are the steps of the code: the swap of `updating` in a loop, the reads and the write of the slot one
by one, the store that gives the lock back. `register_unsync` does without the lock, and asks its
caller that nobody else works on the slot meanwhile.

* `machine` — any number of parties on one slot, in any interleaving.
* `Unshared` — the condition of `register_unsync`.
* `Kept` — the lock has a holder, nobody else reads or writes the slot, and what the holder has read
  is still there.
* `slot_atomic` — **the slot is an atomic object**: whatever its clients see of it they see of
  `storeAsync` and `take` in one step each. No two parties access the slot at the same time, and the
  debug assertion never fails.
-/

import Xutex.Concurrency.Atomic
import Xutex.Core.Signal

set_option linter.unusedSectionVars false

namespace Xutex.DynamicWaker

open Concurrency AtomicObject

/-! ### The calls -/

inductive Op
  | register (waker : Waker)
  | registerUnsync (waker : Waker)
  | take
  deriving DecidableEq

inductive Answer
  | registered (outcome : Registered)
  | unit
  | taken (slot : WakerSlot)
  deriving DecidableEq

/-- What the models of the primitives do in one step. -/
def apply (slot : WakerSlot) : Op → WakerSlot × Answer
  | .register waker => ((storeAsync slot waker).1, .registered (storeAsync slot waker).2)
  | .registerUnsync waker => ((storeAsync slot waker).1, .unit)
  | .take => (.none, .taken slot)

/-- Where a party is. The points of `store_async` know whether they are inside `register`, which has
the lock, or inside `register_unsync`. -/
inductive Pc
  | idle
  /-- `updating.swap(true)` of `register`. -/
  | registerSwap (waker : Waker)
  /-- The debug assertion of `register_unsync`. -/
  | unsyncLoad (waker : Waker)
  /-- `store_async`: is the slot empty? -/
  | storeEmpty (sync : Bool) (waker : Waker)
  /-- `store_async`: does the slot wake the same task? -/
  | storeMatch (sync : Bool) (waker : Waker) (wasEmpty : Bool)
  | storeWrite (sync : Bool) (waker : Waker) (wasEmpty : Bool)
  /-- `updating.store(false)` of `register`. -/
  | registerStore (outcome : Registered)
  | unsyncReturn
  /-- `updating.swap(true)` of `take`. -/
  | takeSwap
  /-- `mem::replace`: the read. -/
  | takeRead
  /-- `mem::replace`: the write. -/
  | takeWrite (value : WakerSlot)
  /-- `updating.store(false)` of `take`. -/
  | takeStore (value : WakerSlot)
  | panicked
  deriving DecidableEq

/-- The slot, the parties and what they have seen. -/
structure State (ι : Type) where
  updating : Bool
  value : WakerSlot
  pc : ι → Pc
  history : List (Event ι Op Answer)

inductive Move
  | call (op : Op)
  | advance
  deriving DecidableEq

section Functions

variable {ι : Type} [DecidableEq ι] (state : State ι) (party : ι)

def State.goto (pc : Pc) : State ι := { state with pc := Function.update state.pc party pc }

def State.see (event : Event ι Op Answer) :
    State ι := { state with history := state.history ++ [event] }

/-- The first step of a call. -/
def entry : Op → Pc
  | .register waker => .registerSwap waker
  | .registerUnsync waker => .unsyncLoad waker
  | .take => .takeSwap

/-- `store_async` has stored the waker, or left the old clone. -/
def stored (sync wasEmpty : Bool) : Pc :=
  if sync then .registerStore (if wasEmpty then .wasEmpty else .armed) else .unsyncReturn

def advance : Option (State ι) :=
  match state.pc party with
  | .idle | .panicked => none
  | .registerSwap waker =>
    -- a round of the loop writes what is there already
    some (if state.updating then state else { state with updating := true }.goto party
      (.storeEmpty true waker))
  | .unsyncLoad waker =>
    some (state.goto party (if state.updating then .panicked else .storeEmpty false waker))
  | .storeEmpty sync waker =>
    some (state.goto party (.storeMatch sync waker (decide (state.value = .none))))
  | .storeMatch sync waker wasEmpty =>
    -- a clone that wakes the same task stays
    some (state.goto party
      (if state.value = .async waker then stored sync wasEmpty else .storeWrite sync waker
      wasEmpty))
  | .storeWrite sync waker wasEmpty =>
    some ({ state with value := .async waker }.goto party (stored sync wasEmpty))
  | .registerStore outcome =>
    some (({ state with updating := false }.see (.answer party (.registered outcome))).goto party
      .idle)
  | .unsyncReturn => some ((state.see (.answer party .unit)).goto party .idle)
  | .takeSwap =>
    some (if state.updating then state else { state with updating := true }.goto party .takeRead)
  | .takeRead => some (state.goto party (.takeWrite state.value))
  | .takeWrite value => some ({ state with value := .none }.goto party (.takeStore value))
  | .takeStore value =>
    some (({ state with updating := false }.see (.answer party (.taken value))).goto party .idle)

def step (label : ι × Move) : Option (State ι) :=
  match label.2 with
  | .advance => advance state label.1
  | .call op =>
    if state.pc label.1 = .idle then some ((state.see (.call label.1 op)).goto label.1 (entry op))
      else none

end Functions

/-- `DynamicWaker::new` and `new_sync`. -/
def Initial (slot : WakerSlot) : Prop := slot = .none ∨ slot = .sync

/-- **The slot and its clients.** -/
def machine (ι : Type) [DecidableEq ι] : System (State ι) (ι × Move) where
  init state := state.updating = false ∧ Initial state.value ∧ (∀ party, state.pc party = .idle) ∧
    state.history = []
  step := step

/-- The party is in `register_unsync`. -/
def Pc.unsync : Pc → Bool
  | .unsyncLoad _ | .unsyncReturn => true
  | .storeEmpty sync _ | .storeMatch sync _ _ | .storeWrite sync _ _ => !sync
  | _ => false

/-- The party has the lock. -/
def Pc.holds : Pc → Bool
  | .storeEmpty sync _ | .storeMatch sync _ _ | .storeWrite sync _ _ => sync
  | .registerStore _ | .takeRead | .takeWrite _ | .takeStore _ => true
  | _ => false

/-- The next step of the party reads or writes the slot. -/
def Pc.accesses : Pc → Bool
  | .storeEmpty _ _ | .storeMatch _ _ _ | .storeWrite _ _ _ | .takeRead | .takeWrite _ => true
  | _ => false

variable {ι : Type}

/-- **The condition of `register_unsync`**: nobody else is in a call. -/
def Unshared (state : State ι) : Prop :=
  ∀ party, (state.pc party).unsync = true → ∀ other, other ≠ party → state.pc other = .idle

/-! ### Nobody interferes -/

/-- What a party has read of the slot. -/
def Pc.Seen (slot : WakerSlot) : Pc → Prop
  | .storeMatch _ _ wasEmpty | .storeWrite _ _ wasEmpty => wasEmpty = decide (slot = .none)
  | .takeWrite value => value = slot
  | _ => True

/-- The party has the slot for itself. -/
def Pc.works (pc : Pc) : Bool := pc.holds || pc.unsync

structure Kept (state : State ι) : Prop where
  lock : state.updating = true ↔ ∃ party, (state.pc party).holds = true
  alone : ∀ first second, (state.pc first).works = true → (state.pc second).works = true →
    first = second
  seen : ∀ party, (state.pc party).Seen state.value
  unshared : Unshared state
  fine : ∀ party, state.pc party ≠ .panicked

variable [DecidableEq ι] {state next : State ι} {party : ι} {here there : Pc}

/-- What a step does to the lock: nothing, or the party takes it, or gives it back. -/
def Locks (here there : Pc) (before after : Bool) : Prop :=
  after = before ∧ there.holds = here.holds ∨ before = false ∧ after = true ∧ there.holds = true ∨
    after = false ∧ here.holds = true ∧ there.holds = false

theorem Pc.seen_of_idle {pc : Pc} (slot : WakerSlot) (rests : pc.works = false) : pc.Seen slot := by
  cases pc
  case storeMatch sync _ _ | storeWrite sync _ _ => cases sync <;> cases rests
  case takeWrite => cases rests
  all_goals trivial

/-- **A step keeps the slot to the one who works on it.** -/
theorem Kept.step (kept : Kept state) (source : state.pc party = here)
    (moved : next.pc = Function.update state.pc party there) (unshared : Unshared next)
    (fine : there ≠ .panicked) (locks : Locks here there state.updating next.updating)
    (works : there.works = true → here.works = true ∨ there.unsync = true ∨ state.updating = false ∧
      here ≠ .idle)
    (value : next.value = state.value ∨ here.works = true) (seen : there.Seen next.value) :
    Kept next := by
  have self : next.pc party = there := by rw [moved, Function.update_self]
  have rest {other : ι} (different : other ≠ party) : next.pc other = state.pc other := by
    rw [moved, Function.update_of_ne different]
  -- nobody else is at work beside the party, before and after the step
  have quiet (working : here.works = true ∨ there.works = true) {other : ι}
      (different : other ≠ party) : (state.pc other).works = false := by
    have apart (busy : here.works = true) : (state.pc other).works = false := by
      by_contra works
      exact different (kept.alone other party (Bool.not_eq_false _ ▸ works) (source ▸ busy))
    rcases working with busy | busy
    · exact apart busy
    rcases works busy with busy | unsync | ⟨free, inside⟩
    · exact apart busy
    · have idle := unshared party (self ▸ unsync) other different
      rw [← rest different, idle]
      rfl
    · have unheld : (state.pc other).holds = false := by
        by_contra holds
        rw [kept.lock.mpr ⟨other, Bool.not_eq_false _ ▸ holds⟩] at free
        cases free
      by_contra works
      rw [Pc.works, unheld, Bool.false_or, Bool.not_eq_false] at works
      exact inside (source ▸ kept.unshared other works party different.symm)
  refine ⟨?_, fun first second one two => ?_, fun other => ?_, unshared, fun other => ?_⟩
  · rcases locks with ⟨updating, holds⟩ | ⟨-, updating, holds⟩ | ⟨updating, held, free⟩
    · rw [updating, kept.lock]
      refine exists_congr fun other => ?_
      by_cases same : other = party
      · rw [same, self, source, holds]
      · rw [rest same]
    · exact ⟨fun _ => ⟨party, self ▸ holds⟩, fun _ => updating⟩
    · rw [updating]
      refine ⟨never, fun ⟨other, holds⟩ => ?_⟩
      by_cases same : other = party
      · rw [same, self, free] at holds
        exact holds
      · have rests := quiet (.inl (by rw [Pc.works, held, Bool.true_or])) same
        rw [rest same] at holds
        rw [Pc.works, holds, Bool.true_or] at rests
        exact rests.symm
  · by_cases same : first = party <;> by_cases same' : second = party
    · rw [same, same']
    · rw [same, self] at one
      rw [rest same', quiet (.inr one) same'] at two
      exact never two
    · rw [same', self] at two
      rw [rest same, quiet (.inr two) same] at one
      exact never one
    · rw [rest same] at one
      rw [rest same'] at two
      exact kept.alone first second one two
  · by_cases same : other = party
    · rw [same, self]
      exact seen
    · rw [rest same]
      rcases value with value | busy
      · rw [value]
        exact kept.seen other
      · exact Pc.seen_of_idle _ (quiet (.inl busy) same)
  · by_cases same : other = party
    · rw [same, self]
      exact fine
    · rw [rest same]
      exact kept.fine other

/-- `store_async` ends, and the lock stays with `register`. -/
theorem stored_kept {sync wasEmpty : Bool} (kept : Kept state) (source : state.pc party = here)
    (moved : next.pc = Function.update state.pc party (stored sync wasEmpty))
    (unshared : Unshared next) (same : next.updating = state.updating)
    (inside : (here.holds, here.unsync) = (sync, !sync)) : Kept next := by
  obtain ⟨holds, unsync⟩ := Prod.mk.inj inside
  have works : here.works = true := by rw [Pc.works, holds, unsync, Bool.or_not_self]
  refine kept.step source moved unshared ?_ (.inl ⟨same, ?_⟩) (fun _ => .inl works) (.inr works) ?_
  · cases sync <;> exact Pc.noConfusion
  · rw [holds]
    cases sync <;> rfl
  · cases sync <;> trivial

/-- **Every step inside a call.** -/
theorem advance_kept (kept : Kept state) (unshared : Unshared next)
    (stepped : advance state party = some next) : Kept next := by
  have seen := kept.seen party
  cases source : state.pc party <;> rw [source] at seen <;>
    simp only [advance, source, Option.some.injEq, reduceCtorEq] at stepped
  case registerSwap | takeSwap =>
    split at stepped <;> subst stepped
    · exact kept
    · rename_i free
      exact kept.step source rfl unshared Pc.noConfusion
        (.inr (.inl ⟨Bool.eq_false_iff.mpr free, rfl, rfl⟩))
        (fun _ => .inr (.inr ⟨Bool.eq_false_iff.mpr free, Pc.noConfusion⟩)) (.inl rfl) trivial
  case unsyncLoad waker =>
    -- the lock is free: whoever had it would not be idle
    have free : state.updating = false := by
      by_contra updating
      obtain ⟨other, holds⟩ := kept.lock.mp (Bool.not_eq_false _ ▸ updating)
      have different : other ≠ party := by
        rintro rfl
        rw [source] at holds
        cases holds
      rw [kept.unshared party (by rw [source]; rfl) other different] at holds
      cases holds
    subst stepped
    rw [free] at unshared ⊢
    exact kept.step source rfl unshared Pc.noConfusion (.inl ⟨rfl, rfl⟩) (fun _ => .inl rfl)
      (.inl rfl) trivial
  case storeEmpty sync waker =>
    subst stepped
    exact kept.step source rfl unshared Pc.noConfusion (.inl ⟨rfl, rfl⟩) .inl (.inl rfl) rfl
  case storeMatch sync waker wasEmpty =>
    subst stepped
    split at unshared
    · rename_i same
      rw [if_pos same]
      exact stored_kept kept source rfl unshared rfl rfl
    · rename_i differs
      rw [if_neg differs]
      exact kept.step source rfl unshared Pc.noConfusion (.inl ⟨rfl, rfl⟩) .inl (.inl rfl) seen
  case storeWrite sync waker wasEmpty =>
    subst stepped
    exact stored_kept kept source rfl unshared rfl rfl
  case registerStore | takeStore =>
    subst stepped
    exact kept.step source rfl unshared Pc.noConfusion (.inr (.inr ⟨rfl, rfl, rfl⟩)) never
      (.inl rfl) trivial
  case unsyncReturn =>
    subst stepped
    exact kept.step source rfl unshared Pc.noConfusion (.inl ⟨rfl, rfl⟩) never (.inl rfl) trivial
  case takeRead =>
    subst stepped
    exact kept.step source rfl unshared Pc.noConfusion (.inl ⟨rfl, rfl⟩) (fun _ => .inl rfl)
      (.inl rfl) rfl
  case takeWrite =>
    subst stepped
    exact kept.step source rfl unshared Pc.noConfusion (.inl ⟨rfl, rfl⟩) (fun _ => .inl rfl)
      (.inr rfl) trivial

theorem kept_of_reachable (reach : (machine ι).ReachableBy (fun _ _ next => Unshared next) state) :
    Kept state := by
  refine reach.invariant Kept ?_ ?_
  · rintro state ⟨free, -, idle, -⟩
    refine ⟨?_, fun first _ works => ?_, fun party => ?_, fun party unsync => ?_, fun party => ?_⟩
    · rw [free]
      refine ⟨never, fun ⟨party, holds⟩ => ?_⟩
      rw [idle party] at holds
      exact holds
    · rw [idle first] at works
      exact never works
    · rw [idle party]
      trivial
    · rw [idle party] at unsync
      exact never unsync
    · rw [idle party]
      exact Pc.noConfusion
  · rintro state ⟨party, move⟩ next - kept stepped unshared
    cases move with
    | advance => exact advance_kept kept unshared stepped
    | call op =>
      simp only [machine, step] at stepped
      split at stepped <;> cases stepped
      rename_i source
      cases op with
      | register | take =>
        exact kept.step source rfl unshared Pc.noConfusion (.inl ⟨rfl, rfl⟩) never (.inl rfl)
          trivial
      | registerUnsync =>
        exact kept.step source rfl unshared Pc.noConfusion (.inl ⟨rfl, rfl⟩)
          (fun _ => .inr (.inl rfl)) (.inl rfl) trivial

/-! ### The atomic slot -/

/-- What the atomic object knows of a party. -/
def phaseAt : Pc → Phase Op Answer
  | .idle | .panicked => .outside
  | .registerSwap waker | .storeEmpty true waker | .storeMatch true waker _
  | .storeWrite true waker _ => .called (.register waker)
  | .unsyncLoad waker | .storeEmpty false waker | .storeMatch false waker _
  | .storeWrite false waker _ => .called (.registerUnsync waker)
  | .takeSwap | .takeRead | .takeWrite _ => .called .take
  | .registerStore outcome => .answered (.registered outcome)
  | .unsyncReturn => .answered .unit
  | .takeStore value => .answered (.taken value)

/-- The slot as an atomic object: an operation takes effect with the write, or where there is
nothing to write. -/
def view (state : State ι) : AtomicObject ι WakerSlot Op Answer :=
  ⟨state.value, phaseAt ∘ state.pc, state.history⟩

/-- **The atomic slot.** -/
abbrev atomic (ι : Type) [DecidableEq ι] :
    System (AtomicObject ι WakerSlot Op Answer) (AtomicObject.Label ι Op) :=
  AtomicObject.machine ι apply Initial

/-- A step that the atomic object does not take, or takes as a whole. -/
abbrev Refined (state next : State ι) : Prop :=
  view next = view state ∨ ∃ label, (atomic ι).step (view state) label = some (view next)

theorem refined_of_same (source : state.pc party = here)
    (moved : next.pc = Function.update state.pc party there)
    (value : next.value = state.value) (history : next.history = state.history)
    (same : phaseAt there = phaseAt here) : Refined state next := by
  refine .inl ?_
  rw [view, view, value, history, moved, Function.comp_update, same, ← source]
  exact congrArg (AtomicObject.mk _ · _) (Function.update_eq_self party (phaseAt ∘ state.pc))

theorem refined_of_act {op : Op} {answer : Answer} (source : state.pc party = here)
    (moved : next.pc = Function.update state.pc party there)
    (value : (next.value, answer) = apply state.value op)
    (history : next.history = state.history) (called : phaseAt here = .called op)
    (answered : phaseAt there = .answered answer) : Refined state next := by
  refine .inr ⟨.act party, step_act (by rw [← called, ← source]; rfl) value ?_ history⟩
  show phaseAt ∘ next.pc = Function.update (phaseAt ∘ state.pc) party _
  rw [← answered, ← Function.comp_update, moved]

/-- The write of `store_async`, or the decision to leave the slot as it is. -/
theorem refined_of_stored {sync wasEmpty : Bool} {waker : Waker} (source : state.pc party = here)
    (moved : next.pc = Function.update state.pc party (stored sync wasEmpty))
    (value : next.value = .async waker)
    (history : next.history = state.history) (seen : wasEmpty = decide (state.value = .none))
    (called : phaseAt here = .called (if sync then .register waker else .registerUnsync waker)) :
    Refined state next := by
  have outcome : (if wasEmpty then Registered.wasEmpty else .armed) =
      (storeAsync state.value waker).2 := by
    rw [seen]
    cases state.value <;> rfl
  cases sync with
  | false =>
    exact refined_of_act source moved (by rw [value, ← storeAsync_slot state.value]; rfl) history
      called rfl
  | true =>
    refine refined_of_act source moved ?_ history called rfl
    rw [value, outcome, ← storeAsync_slot state.value]
    rfl

theorem advance_refined (kept : Kept state) (after : Kept next)
    (stepped : advance state party = some next) : Refined state next := by
  have seen := kept.seen party
  have answers {answer : Answer} {before : State ι}
      (answered : phaseAt (state.pc party) = .answered answer)
      (value : before.value = state.value) (pcs : before.pc = state.pc)
        (history : before.history = state.history) :
      Refined state ((before.see (.answer party answer)).goto party .idle) := by
    refine .inr ⟨.answer party, step_answer answered value ?_ (congrArg (· ++ _) history)⟩
    show phaseAt ∘ Function.update before.pc party .idle = _
    rw [Function.comp_update, pcs]
    rfl
  cases source : state.pc party <;> rw [source] at seen <;>
    simp only [advance, source, Option.some.injEq, reduceCtorEq] at stepped
  case registerSwap | takeSwap =>
    split at stepped <;> subst stepped
    · exact .inl rfl
    · exact refined_of_same source rfl rfl rfl rfl
  case unsyncLoad waker =>
    subst stepped
    split
    · rename_i updating
      refine absurd ?_ (after.fine party)
      rw [if_pos updating]
      exact Function.update_self _ _ _
    · exact refined_of_same source rfl rfl rfl rfl
  case storeEmpty sync waker =>
    subst stepped
    cases sync <;> exact refined_of_same source rfl rfl rfl rfl
  case storeMatch sync waker wasEmpty =>
    subst stepped
    split
    · rename_i same
      refine refined_of_stored source rfl same rfl seen ?_
      cases sync <;> rfl
    · cases sync <;> exact refined_of_same source rfl rfl rfl rfl
  case storeWrite sync waker wasEmpty =>
    subst stepped
    refine refined_of_stored source rfl rfl rfl seen ?_
    cases sync <;> rfl
  case takeRead =>
    subst stepped
    exact refined_of_same source rfl rfl rfl rfl
  case takeWrite value =>
    subst stepped
    exact refined_of_act source rfl (by rw [show value = state.value from seen]; rfl) rfl rfl rfl
  case registerStore | unsyncReturn | takeStore =>
    subst stepped
    refine answers (by rw [source]; rfl) ?_ ?_ ?_ <;> rfl

/-- **The slot is an atomic object**, in every run that keeps to the condition of
`register_unsync`. -/
theorem slot_atomic (reach : (machine ι).ReachableBy (fun _ _ next => Unshared next) state) :
    (atomic ι).Reachable (view state) ∧
      (∀ first second, (state.pc first).accesses = true → (state.pc second).accesses = true →
        first = second) ∧
      ∀ party, state.pc party ≠ .panicked := by
  have kept := kept_of_reachable reach
  have works {pc : Pc} (accesses : pc.accesses = true) : pc.works = true := by
    cases pc <;> first | rfl | exact Bool.or_not_self _ | cases accesses
  refine ⟨?_, fun first second one two => kept.alone first second (works one) (works two),
    kept.fine⟩
  refine reach.map view ?_ ?_
  · rintro state ⟨-, initial, idle, empty⟩
    exact ⟨initial, fun party => congrArg phaseAt (idle party), empty⟩
  · rintro state ⟨party, move⟩ next before stepped unshared
    have after : Kept next := kept_of_reachable (before.step stepped unshared)
    have refined : Refined state next := by
      cases move with
      | advance => exact advance_refined (kept_of_reachable before) after stepped
      | call op =>
        simp only [machine, step] at stepped
        split at stepped <;> cases stepped
        rename_i idle
        refine .inr ⟨.call party op, step_call (congrArg phaseAt idle) rfl ?_ rfl⟩
        show phaseAt ∘ Function.update state.pc party (entry op) = _
        rw [Function.comp_update]
        cases op <;> rfl
    exact refined.imp_right fun ⟨label, moved⟩ => ⟨label, moved, trivial⟩

/-- `a` registers without the lock; then `b` takes while `a` registers another waker: it is told
that the slot was full, before `b` gets the new waker. -/
def registersThenTakes {ι : Type} (a b : ι) : List (ι × Move) :=
  List.flatten [[(a, .call (.registerUnsync 1))], List.replicate 5 (a, .advance),
    [(a, .call (.register 2)), (a, .advance), (b, .call .take),
    (b, .advance)], List.replicate 4 (a, .advance), List.replicate 3 (b, .advance)]

theorem slot_atomic_taken : ∃ state : State (Fin 2), (atomic (Fin 2)).Reachable (view state) ∧
    state.pc 1 = .takeStore (.async 2) ∧
      state.history = [.call 0 (.registerUnsync 1), .answer 0 .unit,
      .call 0 (.register 2), .call 1 .take, .answer 0 (.registered .armed)] := by
  obtain ⟨state, reach, ended⟩ := System.exists_reachableBy_of_run (machine (Fin 2))
    (fun _ _ next => decide (∀ party, (next.pc party).unsync = true → ∀ other, other ≠ party →
    next.pc other = .idle)) (fun state => decide (state.pc 1 = .takeStore (.async 2) ∧
    state.history = [.call 0 (.registerUnsync 1),
      .answer 0 .unit, .call 0 (.register 2), .call 1 .take, .answer 0 (.registered .armed)]))
    (show (machine (Fin 2)).init ⟨false, .none, fun _ => .idle, []⟩
      from ⟨rfl, .inl rfl, fun _ => rfl, rfl⟩)
    (registersThenTakes 0 1) (by decide +kernel)
  obtain ⟨takes, seen⟩ := of_decide_eq_true ended
  exact ⟨state, (slot_atomic (reach.mono fun _ _ _ => of_decide_eq_true)).1, takes, seen⟩

end Xutex.DynamicWaker
