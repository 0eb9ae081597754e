/-
**The once-cell is initialized once, by one party, and everybody gets the same value.**

The initializer role is held between the CAS that moves the word to `RUNNING` and the swap that
moves it away; a future keeps it between two polls in its flag (`roleAt`). `Agreed` is the
invariant:

* one party holds the role, and while it does the word is `RUNNING` (`unique`, `running`), so that
  nobody else moves the word and `READY` is left only by `take`;
* the slot is initialized when the word is `READY`, and for the one step between the write and the
  swap (`slot`);
* a party that is going to read the slot, and a waiter that was signalled, is there because the word
  is `READY` (`ready`, `signalled`).

A step of a party without the role leaves the word alone (`Agreed.quiet`); the others are steps of
the one party that has the role or takes it (`Agreed.turn`).
-/

import Xutex.OnceCell.Waiting

set_option linter.unusedSectionVars false

namespace Xutex.OnceCell

open Concurrency Discipline

variable {ι V : Type} [DecidableEq ι]

/-! ### The role -/

/-- A party at `pc` whose future has the flag `initializing` holds the initializer role. -/
def roleAt : Pc ι V → Bool → Bool
  | .closure, _ | .writeSlot _ _, _ | .completeSwap _, _ | .abortSwap _, _ => true
  | .produce, _ | .drive, _ | .dropFut _, _ => true
  | .future, initializing => initializing
  | _, _ => false

/-- The party holds the initializer role. -/
abbrev Role (state : State ι V) (party : ι) : Prop :=
  roleAt (state.pc party) (state.initializing party) = true

/-- The call ends with the cell initialized. -/
def After.completes : After → Bool
  | .stored | .syncValue | .pollValue => true
  | .syncFailed | .syncPanicked | .pollFailed | .dropped => false

/-- The party is where only an initialized cell leads. -/
def readyAt : Pc ι V → Bool
  | .valueRef _ | .completeLock _ | .completeDrain _ | .unlock (.drained _ _) => true
  | .signalTake _ _ retry after | .signalPublish _ _ retry after => !retry || after.completes
  | .abortSwap after | .retryLock after | .retryPop after | .unlock (.popped _ after) =>
    after.completes
  | _ => false

/-- User code runs inside a poll that keeps the role. -/
def drivesAt : Pc ι V → Bool
  | .produce | .drive => true
  | _ => false

/-- **The invariant of agreement.** -/
structure Agreed (state : State ι V) : Prop where
  parked : Parked state
  raised : ∀ party, drivesAt (state.pc party) = true → state.initializing party = true
  running : ∀ party, Role state party → state.phase = .running
  unique : ∀ party other, Role state party → Role state other → party = other
  held : state.phase = .running → state.leaked = false → ∃ party, Role state party
  slot : state.slot.isSome = true ↔ state.phase = .ready ∨
    ∃ party after, state.pc party = .completeSwap after
  written : state.written = state.slot.toList
  returned : ∀ value ∈ state.returned, state.phase = .ready ∧ value = state.slot
  ready : ∀ party, readyAt (state.pc party) = true → state.phase = .ready
  signalled : ∀ party, waitsAt (state.pc party) (state.signal party).value = true →
    (state.signal party).value = .signaled → state.phase = .ready

variable {state next : State ι V} {party : ι}

theorem role_of_drives {pc : Pc ι V} {initializing : Bool} (drives : drivesAt pc = true) :
    roleAt pc initializing = true := by
  cases pc <;> first | rfl | cases drives

theorem role_of_swap {other : ι} {after : After} (source : state.pc other = .completeSwap after) :
    Role state other := by
  rw [Role, source]
  rfl

/-! ### The two rules -/

section Rules

variable {pc : Pc ι V}

/-- The role of another party. -/
theorem role_other (moves : MovesFrom state next party pc)
    (others : ∀ other, other ≠ party → next.initializing other = state.initializing other)
    {other : ι} (different : other ≠ party) : Role next other ↔ Role state other := by
  obtain ⟨pc', moves⟩ := moves
  have rest : next.pc other = state.pc other := moves.rest different
  rw [Role, rest, others other different]

theorem Agreed.raised_step (agreed : Agreed state) (moves : MovesFrom state next party pc)
    (others : ∀ other, other ≠ party → next.initializing other = state.initializing other)
    (own : drivesAt (next.pc party) = true → next.initializing party = true) (other : ι)
    (drives : drivesAt (next.pc other) = true) : next.initializing other = true := by
  by_cases self : other = party
  · subst self
    exact own drives
  · obtain ⟨pc', moves⟩ := moves
    have rest : next.pc other = state.pc other := moves.rest self
    rw [rest] at drives
    rw [others other self]
    exact agreed.raised other drives

/-- A waiter that is signalled after the step was signalled before it, or the step says that the
cell is ready. -/
theorem Agreed.signalled_step (agreed : Agreed state) (moves : MovesFrom state next party pc)
    (told : ∀ node, (next.signal node).value = .signaled →
      (state.signal node).value = .signaled ∨ state.phase = .ready) {other : ι}
    (waits : waitsAt (next.pc other) (next.signal other).value = true)
    (value : (next.signal other).value = .signaled) : state.phase = .ready := by
  obtain ⟨pc', moves⟩ := moves
  have waiting := agreed.parked.waiting
  rcases told other value with before | ready
  · refine agreed.signalled other ?_ before
    by_cases self : other = party
    · subst self
      have target : next.pc other = pc' := moves.self
      have final : (valueOf next.waiters other).isFinal = true := congrArg SignalValue.isFinal value
      exact (moves.signalled_self waiting (target ▸ waits) final).1
    · have rest : next.pc other = state.pc other := moves.rest self
      rw [rest, value] at waits
      rw [before]
      exact waits
  · exact ready

/-- **The rule for a party without the role.** -/
theorem Agreed.quiet (agreed : Agreed state) (parked : Parked next)
    (moves : MovesFrom state next party (state.pc party)) (phase : next.phase = state.phase)
    (slot : next.slot = state.slot) (written : next.written = state.written)
    (returned : next.returned = state.returned) (leaked : next.leaked = state.leaked)
    (others : ∀ other, other ≠ party → next.initializing other = state.initializing other)
    (before : ¬Role state party) (after : ¬Role next party)
    (ready : readyAt (next.pc party) = true → state.phase = .ready)
    (told : ∀ node, (next.signal node).value = .signaled →
      (state.signal node).value = .signaled ∨ state.phase = .ready) : Agreed next := by
  have role (other : ι) : Role next other ↔ Role state other := by
    by_cases self : other = party
    · subst self
      exact iff_of_false after before
    · exact role_other moves others self
  have swap (other : ι) (kept : After) :
      next.pc other = .completeSwap kept ↔ state.pc other = .completeSwap kept := by
    by_cases self : other = party
    · subst self
      exact iff_of_false (fun source => after (role_of_swap source)) fun source =>
        before (role_of_swap source)
    · obtain ⟨pc', moves⟩ := moves
      have rest : next.pc other = state.pc other := moves.rest self
      rw [rest]
  have raised := agreed.raised_step moves others fun drives => absurd (role_of_drives drives) after
  refine ⟨parked, raised, fun other holds => ?_, fun first second holds also => ?_,
    fun running kept => ?_, ?_, ?_, fun value member => ?_, fun other reads => ?_,
    fun other waits value => ?_⟩
  · rw [phase]
    exact agreed.running other ((role other).mp holds)
  · exact agreed.unique first second ((role first).mp holds) ((role second).mp also)
  · rw [phase] at running
    rw [leaked] at kept
    obtain ⟨other, holds⟩ := agreed.held running kept
    exact ⟨other, (role other).mpr holds⟩
  · rw [slot, phase, agreed.slot]
    simp only [swap]
  · rw [written, slot]
    exact agreed.written
  · rw [returned] at member
    rw [phase, slot]
    exact agreed.returned value member
  · rw [phase]
    by_cases self : other = party
    · subst self
      exact ready reads
    · obtain ⟨pc', moves⟩ := moves
      have rest : next.pc other = state.pc other := moves.rest self
      rw [rest] at reads
      exact agreed.ready other reads
  · rw [phase]
    exact agreed.signalled_step moves told waits value

/-- **The rule for the one party that has the role, or takes it.** The cell is not ready, so that
nobody reads the slot or was told that it can. -/
theorem Agreed.turn (agreed : Agreed state) (parked : Parked next)
    (moves : MovesFrom state next party (state.pc party)) (unready : state.phase ≠ .ready)
    (alone : ∀ other, other ≠ party → ¬Role state other)
    (others : ∀ other, other ≠ party → next.initializing other = state.initializing other)
    (running : Role next party → next.phase = .running)
    (held : next.phase = .running → next.leaked = false → Role next party)
    (slot : next.slot.isSome = true ↔ next.phase = .ready ∨
      ∃ after, next.pc party = .completeSwap after)
    (written : next.written = next.slot.toList) (returned : next.returned = state.returned)
    (ready : readyAt (next.pc party) = true → next.phase = .ready)
    (raised : drivesAt (next.pc party) = true → next.initializing party = true)
    (told : ∀ node, (next.signal node).value = .signaled → (state.signal node).value = .signaled) :
    Agreed next := by
  have only (other : ι) (holds : Role next other) : other = party := by
    by_contra self
    exact alone other self ((role_other moves others self).mp holds)
  refine ⟨parked, agreed.raised_step moves others raised, fun other holds => ?_,
    fun first second holds also => ?_, fun runs kept => ?_, ?_, written,
    fun value member => ?_, fun other reads => ?_, fun other waits value => ?_⟩
  · obtain rfl := only other holds
    exact running holds
  · rw [only first holds, only second also]
  · exact ⟨party, held runs kept⟩
  · rw [slot]
    refine or_congr_right ⟨fun ⟨after, source⟩ => ⟨party, after, source⟩,
      fun ⟨other, after, source⟩ => ?_⟩
    obtain rfl := only other (role_of_swap source)
    exact ⟨after, source⟩
  · rw [returned] at member
    exact absurd (agreed.returned value member).1 unready
  · by_cases self : other = party
    · subst self
      exact ready reads
    · obtain ⟨pc', moves⟩ := moves
      have rest : next.pc other = state.pc other := moves.rest self
      rw [rest] at reads
      exact absurd (agreed.ready other reads) unready
  · exact absurd (agreed.signalled_step moves (fun node isTold => .inl (told node isTold))
      waits value) unready

end Rules

/-! ### Steps without the role -/

section Ends

/-- Who is told that the cell is ready was told before, or it is. -/
abbrev Told (state : State ι V) (signal : ι → Signal) : Prop :=
  ∀ node, (signal node).value = .signaled → (state.signal node).value = .signaled ∨
    state.phase = .ready

/-- **How a step of a party without the role ends.** -/
structure Ends (state next : State ι V) (party : ι) : Prop where
  role : roleAt (next.pc party) false = false
  ready : readyAt (next.pc party) = true → state.phase = .ready
  told : Told state next.signal

theorem told_same : Told state state.signal := fun _ => .inl

/-- A node that is written with another value is not told. -/
theorem told_update {node : ι} {signal : Signal}
    (other : signal.value = .signaled → (state.signal node).value = .signaled ∨
      state.phase = .ready) :
    Told state (Function.update state.signal node signal) := by
  intro at' value
  by_cases same : at' = node
  · subst same
    rw [Function.update_self] at value
    exact other value
  · rw [Function.update_of_ne same] at value
    exact .inl value

variable {before : State ι V} {pc : Pc ι V} {after : After}

theorem Ends.goto (told : Told state before.signal) (role : roleAt pc false = false)
    (ready : readyAt pc = true → state.phase = .ready) :
    Ends state (before.goto party pc) party := by
  refine ⟨?_, ?_, told⟩
  · simpa using role
  · simpa using ready

theorem finish_ends (told : Told state before.signal)
    (completes : after.completes = true → state.phase = .ready) :
    Ends state (finish before party after) party := by
  cases after with
  | syncValue => exact .goto told rfl fun _ => completes rfl
  | pollValue => exact .goto told rfl fun _ => completes rfl
  | stored | syncFailed | syncPanicked | pollFailed | dropped => exact .goto told rfl never

theorem signalNext_ends {retry : Bool} {chain : List ι} (told : Told state before.signal)
    (ready : (!retry || after.completes) = true → state.phase = .ready) :
    Ends state (signalNext before party retry after chain) party := by
  cases chain with
  | nil =>
    refine finish_ends told fun completes => ready ?_
    rw [completes, Bool.or_true]
  | cons node rest => exact .goto told rfl ready

theorem unlocked_ends {back : Unlock ι} (told : Told state before.signal)
    (reset : ∀ node, (before.signal node).value = .signaled → (state.signal node).value = .signaled)
    (ready : readyAt (.unlock back : Pc ι V) = true → state.phase = .ready) :
    Ends state (unlocked before party back) party := by
  unfold unlocked
  split
  · exact signalNext_ends told fun _ => ready rfl
  · exact finish_ends told ready
  · exact .goto told rfl fun reads => ready (by simpa [readyAt] using reads)
  · exact .goto told rfl never
  · refine .goto (fun node value => ?_) rfl never
    by_cases same : node = party
    · subst same
      simp at value
    · simp only [State.setSignal, Function.update_of_ne same] at value
      exact .inl (reset node value)
  all_goals exact .goto told rfl never

/-- **Every quiet step of the code ends without the role**, and at a reader only if the cell is
ready. -/
theorem advance_ends (agreed : Agreed state) (quiet : quietAt (state.pc party) = true)
    (stepped : advance state party = some next) : Ends state next party := by
  have ready := agreed.ready party
  cases source : state.pc party <;> rw [source] at quiet ready <;>
    simp only [advance, source, Option.some.injEq, reduceCtorEq] at stepped
  case syncBegin | setBegin | beginInit | writeSlot | completeSwap | abortSwap | valueRef =>
    cases quiet
  case completeLock after =>
    unfold completeLock at stepped
    split at stepped <;> cases stepped
    · exact finish_ends told_same fun _ => ready rfl
    · exact .goto told_same rfl fun _ => ready rfl
  case retryLock after =>
    unfold retryLock at stepped
    split at stepped <;> cases stepped
    · exact finish_ends told_same ready
    · exact .goto told_same rfl ready
  case enqueueLock mode =>
    unfold enqueueLock at stepped
    split at stepped <;> cases stepped
    exact .goto told_same rfl never
  case cancelLock =>
    unfold cancelLock at stepped
    split at stepped <;> cases stepped <;> exact .goto told_same rfl never
  case syncPark =>
    unfold syncPark at stepped
    dsimp only at stepped
    split at stepped <;> cases stepped
    exact .goto told_same rfl never
  case cancelWait =>
    unfold cancelWait at stepped
    dsimp only at stepped
    split at stepped <;> cases stepped
    split <;> exact .goto told_same rfl never
  all_goals subst stepped
  case getLoad =>
    unfold getLoad
    split
    · exact .goto told_same rfl fun _ => ‹_›
    · exact .goto told_same rfl never
  case initGet =>
    unfold initGet
    split
    · exact .goto told_same rfl fun _ => ‹_›
    · exact .goto told_same rfl never
  case syncLoad =>
    unfold syncLoad
    split
    · exact .goto told_same rfl fun _ => ‹_›
    · exact .goto told_same rfl never
    · exact .goto (told_update (by rintro ⟨⟩)) rfl never
  case completeDrain after => exact .goto told_same rfl fun _ => ready rfl
  case retryPop after =>
    unfold retryPop
    split <;> exact .goto told_same rfl ready
  case enqueueCheck mode =>
    unfold enqueueCheck
    split <;> exact .goto told_same rfl never
  case enqueuePush mode => exact .goto told_same rfl never
  case unlock back => exact unlocked_ends told_same (fun _ => id) ready
  case signalTake node rest retry after => exact .goto (told_update .inl) rfl ready
  case signalPublish node rest retry after =>
    refine signalNext_ends (told_update fun value => .inr (ready ?_)) ready
    cases retry with
    | false => rfl
    | true => cases value
  case syncSwap =>
    unfold syncSwap
    dsimp only
    split <;> exact .goto (told_update (by rintro ⟨⟩)) rfl never
  case waitLoad waker =>
    unfold waitLoad
    split
    case h_1 value =>
      refine .goto (told_update (by rintro ⟨⟩)) rfl fun _ => agreed.signalled party ?_ value
      rw [source, value]
      rfl
    case h_2 => exact .goto (told_update (by rintro ⟨⟩)) rfl never
    all_goals exact .goto told_same rfl never
  case stateLoad waker =>
    unfold stateLoad
    split
    · exact .goto (told_update (by rintro ⟨⟩)) rfl fun _ => ‹_›
    · exact .goto told_same rfl never
    · exact .goto (told_update (by rintro ⟨⟩)) rfl never
  case rearmRegister waker =>
    unfold rearmRegister
    dsimp only
    split <;> exact .goto (told_update .inl) rfl never
  case rearmLoad waker =>
    unfold rearmLoad
    split <;> exact .goto told_same rfl never
  case cancelRemove =>
    unfold cancelRemove
    split <;> exact .goto told_same rfl never

end Ends

/-! ### Steps with the role -/

section Turns

section

variable (agreed : Agreed state)
include agreed

/-- The slot is not written while nobody is about to publish it. -/
theorem Agreed.unset (unready : state.phase ≠ .ready)
    (unpublished : ∀ other after, state.pc other ≠ .completeSwap after) : state.slot = none := by
  by_contra set
  rcases agreed.slot.mp (Option.isSome_iff_ne_none.mpr set) with ready | ⟨other, after, source⟩
  · exact unready ready
  · exact unpublished other after source

/-- In an empty cell nobody holds the role. -/
theorem Agreed.vacant (empty : state.phase = .empty) (other : ι) : ¬Role state other := by
  intro holds
  have running := agreed.running other holds
  rw [empty] at running
  cases running

/-- The holder of the role is alone. -/
theorem Agreed.alone (holds : Role state party) (other : ι) (different : other ≠ party) :
    ¬Role state other :=
  fun also => different (agreed.unique other party also holds)

theorem Agreed.unready (holds : Role state party) : state.phase ≠ .ready := by
  rw [agreed.running party holds]
  rintro ⟨⟩

/-- The slot is not written before the holder of the role writes it. -/
theorem Agreed.unwritten (holds : Role state party)
    (unpublished : ∀ after, state.pc party ≠ .completeSwap after) : state.slot = none := by
  refine agreed.unset (agreed.unready holds) fun other after source => ?_
  obtain rfl := agreed.unique other party (role_of_swap source) holds
  exact unpublished after source

/-- **The role is taken, or kept over user code**: the slot is still to be written. -/
theorem Agreed.hold (parked : Parked next) (moves : MovesFrom state next party (state.pc party))
    (unready : state.phase ≠ .ready) (alone : ∀ other, other ≠ party → ¬Role state other)
    (unset : state.slot = none)
    (others : ∀ other, other ≠ party → next.initializing other = state.initializing other)
    (phase : next.phase = .running) (slot : next.slot = state.slot)
    (written : next.written = state.written) (returned : next.returned = state.returned)
    (role : Role next party) (unpublished : ∀ after, next.pc party ≠ .completeSwap after)
    (unread : readyAt (next.pc party) = false)
    (raised : drivesAt (next.pc party) = true → next.initializing party = true)
    (told : ∀ node, (next.signal node).value = .signaled → (state.signal node).value = .signaled) :
    Agreed next := by
  refine agreed.turn parked moves unready alone others (fun _ => phase) (fun _ _ => role) ?_
    ?_ returned (fun reads => ?_) raised told
  · rw [slot, unset, phase]
    refine iff_of_false never ?_
    rintro (ready | ⟨after, source⟩)
    · cases ready
    · exact unpublished after source
  · rw [written, slot]
    exact agreed.written
  · rw [unread] at reads
    cases reads

end

/-- `try_begin_init` has moved the word. -/
theorem tryBeginInit_eq {begun : State ι V} (won : tryBeginInit state party = some begun) :
    state.phase = .empty ∧ begun = { state with phase := .running }.setRetried party false := by
  unfold tryBeginInit at won
  split at won <;> cases won
  exact ⟨‹_›, rfl⟩

section

variable (agreed : Agreed state)
include agreed

theorem syncBegin_agreed (source : state.pc party = .syncBegin)
    (parked : Parked (syncBegin state party))
    (moves : MovesFrom state (syncBegin state party) party (state.pc party)) :
    Agreed (syncBegin state party) := by
  have role : ¬Role state party := by simp [Role, source, roleAt]
  revert parked moves
  unfold syncBegin
  split
  · exact fun parked moves => agreed.quiet parked moves rfl rfl rfl rfl rfl (fun _ _ => rfl) role
      (by simp [Role, roleAt]) (by simp [readyAt]) told_same
  · rename_i begun won
    obtain ⟨empty, rfl⟩ := tryBeginInit_eq won
    have unset := agreed.unset (by rw [empty]; rintro ⟨⟩) fun other after swaps =>
      agreed.vacant empty other (role_of_swap swaps)
    split
    · exact fun parked moves => agreed.hold parked moves (by rw [empty]; rintro ⟨⟩)
        (fun other _ => agreed.vacant empty other) unset (fun _ _ => rfl) rfl rfl rfl rfl
        (by simp [Role, roleAt]) (by simp) (by simp [readyAt]) (by simp [drivesAt]) fun _ => id
    · exact fun parked moves => agreed.hold parked moves (by rw [empty]; rintro ⟨⟩)
        (fun other _ => agreed.vacant empty other) unset (fun _ _ => rfl) rfl rfl rfl rfl
        (by simp [Role, roleAt]) (by simp) (by simp [readyAt, After.completes]) (by simp [drivesAt])
        fun _ => id

theorem setBegin_agreed {value : V} (source : state.pc party = .setBegin value)
    (parked : Parked (setBegin state party value))
    (moves : MovesFrom state (setBegin state party value) party (state.pc party)) :
    Agreed (setBegin state party value) := by
  have role : ¬Role state party := by simp [Role, source, roleAt]
  revert parked moves
  unfold setBegin
  split
  · rename_i begun won
    obtain ⟨empty, rfl⟩ := tryBeginInit_eq won
    have unset := agreed.unset (by rw [empty]; rintro ⟨⟩) fun other after swaps =>
      agreed.vacant empty other (role_of_swap swaps)
    exact fun parked moves => agreed.hold parked moves (by rw [empty]; rintro ⟨⟩)
      (fun other _ => agreed.vacant empty other) unset (fun _ _ => rfl) rfl rfl rfl rfl
      (by simp [Role, roleAt]) (by simp) (by simp [readyAt]) (by simp [drivesAt]) fun _ => id
  · split <;> exact fun parked moves => agreed.quiet parked moves rfl rfl rfl rfl rfl
      (fun _ _ => rfl) role (by simp [Role, roleAt]) (by simp [readyAt]) told_same

theorem beginInit_agreed {waker : Waker} (source : state.pc party = .beginInit waker)
    (parked : Parked (beginInit state party waker))
    (moves : MovesFrom state (beginInit state party waker) party (state.pc party)) :
    Agreed (beginInit state party waker) := by
  have role : ¬Role state party := by simp [Role, source, roleAt]
  revert parked moves
  unfold beginInit
  split
  · exact fun parked moves => agreed.quiet parked moves rfl rfl rfl rfl rfl (fun _ _ => rfl) role
      (by simp [Role, roleAt]) (by simp [readyAt]) told_same
  · rename_i begun won
    obtain ⟨empty, rfl⟩ := tryBeginInit_eq won
    have unset := agreed.unset (by rw [empty]; rintro ⟨⟩) fun other after swaps =>
      agreed.vacant empty other (role_of_swap swaps)
    have told (node : ι) (value : (Function.update state.signal party
        ((state.signal party).setValue .returned) node).value = .signaled) :
        (state.signal node).value = .signaled := by
      by_cases same : node = party
      · subst same
        simp at value
      · simpa [same] using value
    dsimp only
    split
    · exact fun parked moves => agreed.hold parked moves (by rw [empty]; rintro ⟨⟩)
        (fun other _ => agreed.vacant empty other) unset
        (fun other different => by simp [markReturned, different])
        rfl rfl rfl rfl (by simp [Role, roleAt]) (by simp) (by simp [readyAt])
          (by simp [markReturned]) told
    · exact fun parked moves => agreed.hold parked moves (by rw [empty]; rintro ⟨⟩)
        (fun other _ => agreed.vacant empty other) unset
        (fun other different => by simp [markReturned, different])
        rfl rfl rfl rfl (by simp [Role, roleAt, markReturned]) (by simp) (by simp [readyAt])
          (by simp [drivesAt]) told

/-- The write of the slot. -/
theorem writeSlot_agreed {value : V} {after : After}
    (source : state.pc party = .writeSlot value after)
    (parked : Parked (writeSlot state party value after))
    (moves : MovesFrom state (writeSlot state party value after) party (state.pc party)) :
    Agreed (writeSlot state party value after) := by
  have holds : Role state party := by simp [Role, source, roleAt]
  have unset : state.slot = none := agreed.unwritten holds (by simp [source])
  refine agreed.turn parked moves (agreed.unready holds) (agreed.alone holds) (fun _ _ => rfl)
    (fun _ => agreed.running party holds) (fun _ _ => by simp [Role, writeSlot, roleAt]) ?_ ?_ rfl
    (by simp [writeSlot, readyAt]) (by simp [writeSlot, drivesAt]) fun _ => id
  · exact iff_of_true rfl (.inr ⟨after, by simp [writeSlot]⟩)
  · simp [writeSlot, agreed.written, unset]

/-- The swap of `complete`. -/
theorem completeSwap_agreed {after : After} (source : state.pc party = .completeSwap after)
    (parked : Parked (completeSwap state party after))
    (moves : MovesFrom state (completeSwap state party after) party (state.pc party)) :
    Agreed (completeSwap state party after) := by
  have holds : Role state party := role_of_swap source
  have set : state.slot.isSome = true := agreed.slot.mpr (.inr ⟨party, after, source⟩)
  exact agreed.turn parked moves (agreed.unready holds) (agreed.alone holds) (fun _ _ => rfl)
    (by simp [Role, completeSwap, roleAt]) (by rintro ⟨⟩) (iff_of_true set (.inl rfl))
    agreed.written rfl (fun _ => rfl) (by simp [completeSwap, drivesAt]) fun _ => id

/-- The swap of `abort`. -/
theorem abortSwap_agreed {after : After} (source : state.pc party = .abortSwap after)
    (parked : Parked (abortSwap state party after))
    (moves : MovesFrom state (abortSwap state party after) party (state.pc party)) :
    Agreed (abortSwap state party after) := by
  have holds : Role state party := by simp [Role, source, roleAt]
  have unset : state.slot = none := agreed.unwritten holds (by simp [source])
  have fails : after.completes = false := by
    by_contra completes
    have ready := agreed.ready party (by rw [source]; exact Bool.eq_true_of_not_eq_false completes)
    exact agreed.unready holds ready
  refine agreed.turn parked moves (agreed.unready holds) (agreed.alone holds) (fun _ _ => rfl)
    (by simp [Role, abortSwap, roleAt]) (by rintro ⟨⟩) ?_ agreed.written rfl
    (by simp [abortSwap, readyAt, fails]) (by simp [abortSwap, drivesAt]) fun _ => id
  simp [abortSwap, unset]

/-- A reference is read: the cell is ready. -/
theorem valueRef_agreed {polled : Bool} (source : state.pc party = .valueRef polled)
    (parked : Parked (valueRef state party polled))
    (moves : MovesFrom state (valueRef state party polled) party (state.pc party)) :
    Agreed (valueRef state party polled) := by
  have ready : state.phase = .ready := agreed.ready party (by rw [source]; rfl)
  have down : state.initializing party = false := agreed.parked.unflagged (by rw [source]; rfl)
  -- up to the history of what was read, the step is a quiet one
  have quiet : Agreed { valueRef state party polled with returned := state.returned } := by
    refine agreed.quiet ⟨parked.waiting, parked.marked⟩ moves rfl rfl rfl rfl rfl (fun _ _ => rfl)
      (by simp [Role, source, roleAt]) ?_ (fun _ => ready) told_same
    cases polled <;> simp [Role, valueRef, roleAt, down]
  refine ⟨parked, quiet.raised, quiet.running, quiet.unique, quiet.held, quiet.slot, quiet.written,
    fun value member => ?_, quiet.ready, quiet.signalled⟩
  rcases List.mem_append.mp member with old | new
  · exact agreed.returned value old
  · exact ⟨ready, List.mem_singleton.mp new⟩

/-- **Every step of the code keeps the agreement.** -/
theorem advance_agreed (stepped : advance state party = some next) : Agreed next := by
  have parked := advance_parked agreed.parked stepped
  have moves := advance_moves agreed.parked.waiting stepped
  by_cases quiet : quietAt (state.pc party) = true
  · have frame := advance_frame quiet stepped
    have ends := advance_ends agreed quiet stepped
    have down := agreed.parked.advances stepped
    have role : ¬Role state party := by
      rw [Role, down]
      revert quiet stepped
      unfold advance
      cases state.pc party <;> simp [quietAt, roleAt]
    refine agreed.quiet parked moves frame.phase frame.slot frame.written frame.returned
      frame.leaked (fun other _ => congrFun frame.initializing other) role ?_ ends.ready ends.told
    rw [Role, frame.initializing, down, ends.role]
    rintro ⟨⟩
  cases source : state.pc party <;> simp [source, quietAt] at quiet <;>
    simp only [advance, source, Option.some.injEq] at stepped
  all_goals subst stepped
  case syncBegin => exact syncBegin_agreed agreed source parked moves
  case setBegin => exact setBegin_agreed agreed source parked moves
  case beginInit => exact beginInit_agreed agreed source parked moves
  case writeSlot => exact writeSlot_agreed agreed source parked moves
  case completeSwap => exact completeSwap_agreed agreed source parked moves
  case abortSwap => exact abortSwap_agreed agreed source parked moves
  case valueRef => exact valueRef_agreed agreed source parked moves

/-- **Every step of user code keeps the agreement.** -/
theorem user_agreed {act : UserAct V} (stepped : user state party act = some next) :
    Agreed next := by
  have parked := user_parked agreed.parked stepped
  have moves := user_moves agreed.parked.waiting stepped
  have holds : Role state party := by
    revert stepped
    unfold user
    rw [Role]
    cases state.pc party <;> simp [roleAt]
  have running := agreed.running party holds
  have unset : state.slot = none := by
    refine agreed.unwritten holds fun after source => ?_
    simp [user, source] at stepped
  have flag {initializing : Bool} (other : ι) (different : other ≠ party) :
      Function.update state.initializing party initializing other = state.initializing other :=
    Function.update_of_ne different _ _
  have hold := agreed.hold parked moves (agreed.unready holds) (agreed.alone holds) unset
  have raised (drives : drivesAt (state.pc party) = true) := agreed.raised party drives
  cases source : state.pc party <;> rw [source] at raised <;>
    simp only [user, source, reduceCtorEq] at stepped
  case closure =>
    unfold closureAct at stepped
    split at stepped
    · cases stepped
      exact hold (fun _ _ => rfl) running rfl rfl rfl (by simp [Role, roleAt]) (by simp)
        (by simp [readyAt]) (by simp [drivesAt]) fun _ => id
    · split at stepped <;> cases stepped
      exact hold (fun _ _ => rfl) running rfl rfl rfl (by simp [Role, roleAt]) (by simp)
        (by simp [readyAt, After.completes]) (by simp [drivesAt]) fun _ => id
    · cases stepped
      exact hold (fun _ _ => rfl) running rfl rfl rfl (by simp [Role, roleAt]) (by simp)
        (by simp [readyAt, After.completes]) (by simp [drivesAt]) fun _ => id
    all_goals cases stepped
  case produce =>
    have up := raised rfl
    unfold produceAct at stepped
    split at stepped <;> cases stepped
    · exact hold (fun _ _ => rfl) running rfl rfl rfl (by simp [Role, roleAt]) (by simp)
        (by simp [readyAt]) (fun _ => up) fun _ => id
    · exact hold (fun _ _ => rfl) running rfl rfl rfl (by simp [Role, roleAt, up]) (by simp)
        (by simp [readyAt]) (fun _ => up) fun _ => id
  case drive =>
    have up := raised rfl
    unfold driveAct at stepped
    split at stepped
    · cases stepped
      exact hold flag running rfl rfl rfl (by simp [Role, roleAt]) (by simp) (by simp [readyAt])
        (by simp [drivesAt]) fun _ => id
    · split at stepped <;> cases stepped
      exact hold flag running rfl rfl rfl (by simp [Role, roleAt]) (by simp) (by simp [readyAt])
        (by simp [drivesAt]) fun _ => id
    · cases stepped
      exact hold (fun _ _ => rfl) running rfl rfl rfl (by simp [Role, roleAt, up]) (by simp)
        (by simp [readyAt]) (fun _ => up) fun _ => id
    · cases stepped
      exact hold (fun _ _ => rfl) running rfl rfl rfl (by simp [Role, roleAt, up]) (by simp)
        (by simp [readyAt]) (fun _ => up) fun _ => id
    · cases stepped
  case dropFut result =>
    unfold dropFutAct at stepped
    split at stepped <;> cases stepped
    · cases result with
      | none =>
        exact hold (fun _ _ => rfl) running rfl rfl rfl (by simp [Role, roleAt]) (by simp)
          (by simp [readyAt, After.completes]) (by simp [drivesAt]) fun _ => id
      | some value =>
        exact hold (fun _ _ => rfl) running rfl rfl rfl (by simp [Role, roleAt]) (by simp)
          (by simp [readyAt]) (by simp [drivesAt]) fun _ => id
    -- the destructor panics: the role is lost, and the word stays
    · have down : state.initializing party = false := agreed.parked.unflagged (by rw [source]; rfl)
      refine agreed.turn parked moves (agreed.unready holds) (agreed.alone holds) (fun _ _ => rfl)
        (fun _ => running) (by rintro _ ⟨⟩) ?_ agreed.written rfl (by simp [readyAt])
        (by simp [drivesAt]) fun _ => id
      simp [unset, running]

/-- `take`: nobody is in the cell, so that an emptied slot is read by nobody. -/
theorem take_agreed (idle : ∀ other, state.pc other = .idle) : Agreed (take state party) := by
  have vacant (other : ι) : ¬Role state other := by simp [Role, idle, roleAt]
  have parked : Parked (take state party) := take_parked agreed.parked
  revert parked
  unfold take
  split
  · refine fun parked => ⟨parked, agreed.raised, fun other holds => absurd holds (vacant other),
      fun first _ holds => absurd holds (vacant first), (by rintro ⟨⟩), ?_, rfl, (by rintro _ ⟨⟩),
      fun other reads => ?_, fun other waits => ?_⟩
    · simp [idle]
    · simp [idle, readyAt] at reads
    · simp [idle, waitsAt] at waits
  · exact fun parked =>
      ⟨parked, agreed.raised, agreed.running, agreed.unique, agreed.held, agreed.slot,
      agreed.written, agreed.returned, agreed.ready, agreed.signalled⟩

/-- A poll or a drop of a future that holds the role keeps it. -/
theorem poll_agreed {waker : Waker} (source : state.pc party = .future)
    (parked : Parked (poll state party waker))
    (moves : MovesFrom state (poll state party waker) party (state.pc party)) :
    Agreed (poll state party waker) := by
  revert parked moves
  unfold poll
  split
  · rename_i up
    have holds : Role state party := by simp [Role, source, roleAt, up]
    have hold {after : State ι V} (parked : Parked after) (moves) :=
      agreed.hold parked moves (agreed.unready holds)
      (agreed.alone holds) (agreed.unwritten holds (by simp [source]))
    split
    · exact fun parked moves => hold parked moves (fun _ _ => rfl) (agreed.running party holds)
        rfl rfl rfl (by simp [Role, roleAt]) (by simp) (by simp [readyAt]) (fun _ => up) fun _ => id
    · exact fun parked moves => hold parked moves (fun _ _ => rfl) (agreed.running party holds)
        rfl rfl rfl
        (by simp [Role, roleAt, up]) (by simp) (by simp [readyAt]) (fun _ => up) fun _ => id
  · rename_i free
    exact fun parked moves => agreed.quiet parked moves rfl rfl rfl rfl rfl (fun _ _ => rfl)
      (by simp [Role, source, roleAt, free]) (by simp [Role, roleAt]) (by simp [readyAt]) told_same

theorem drop_agreed (source : state.pc party = .future) (parked : Parked (drop state party))
    (moves : MovesFrom state (drop state party) party (state.pc party)) :
    Agreed (drop state party) := by
  revert parked moves
  unfold drop
  split
  · rename_i up
    have holds : Role state party := by simp [Role, source, roleAt, up]
    exact fun parked moves => agreed.hold parked moves (agreed.unready holds) (agreed.alone holds)
      (agreed.unwritten holds (by simp [source])) (fun other different => by simp [different])
      (agreed.running party holds) rfl rfl rfl (by simp [Role, roleAt]) (by simp)
      (by simp [readyAt, After.completes]) (by simp [drivesAt]) fun _ => id
  · rename_i free
    split <;> exact fun parked moves => agreed.quiet parked moves rfl rfl rfl rfl rfl
      (fun _ _ => rfl)
      (by simp [Role, source, roleAt, free]) (by simp [Role, roleAt])
        (by simp [readyAt, After.completes]) told_same

end

/-- **The beginning of every call keeps the agreement.** -/
theorem begin_agreed [Fintype ι] {move : Move V} (agreed : Agreed state)
    (stepped : begin state party move = some next) : Agreed next := by
  have parked := begin_parked agreed.parked stepped
  have marked (up : state.initializing party = true) := (agreed.parked.marked party up).2
  by_cases isTake : move = .take
  · subst isTake
    simp only [begin] at stepped
    split at stepped <;> cases stepped
    exact take_agreed agreed fun other =>
      isIdle_iff.mp (‹∀ other, (state.pc other).isIdle = true› other)
  have moves := begin_moves isTake marked stepped
  cases move <;> simp only [begin] at stepped
  case user | advance => cases stepped
  case take => exact absurd rfl isTake
  case get | set | getOrInit =>
    split at stepped <;> cases stepped
    rename_i idle
    exact agreed.quiet parked moves rfl rfl rfl rfl rfl (fun _ _ => rfl)
      (by simp [Role, isIdle_iff.mp idle, roleAt]) (by simp [Role, roleAt]) (by simp [readyAt])
      told_same
  case create =>
    split at stepped <;> cases stepped
    rename_i idle
    exact agreed.quiet parked moves rfl rfl rfl rfl rfl
      (fun other different => by simp [bring, different])
      (by simp [Role, isIdle_iff.mp idle, roleAt]) (by simp [Role, roleAt]) (by simp [readyAt])
        (told_update (by rintro ⟨⟩))
  case poll waker =>
    split at stepped <;> cases stepped
    exact poll_agreed agreed ‹_› parked moves
  case drop =>
    split at stepped <;> cases stepped
    exact drop_agreed agreed ‹_› parked moves

end Turns

/-! ### The closures -/

section Closures

/-- **The closure of a party's call over one step**: it is left alone, a new call brings one, or it
is taken and called by the party that has just found the cell empty. -/
inductive Called (state next : State ι V) (party : ι) : Prop
  | kept (closure : next.closure party = state.closure party)
    (started : next.started party = state.started party)
  | brought (started : next.started party = 0)
  | called (empty : state.phase = .empty) (present : state.closure party = true)
      (gone : next.closure party = false) (started : next.started party = state.started party + 1)

variable {other : ι}

/-- The closure is called under the role that was just won. -/
theorem startClosure_called (empty : state.phase = .empty) (present : state.closure party = true)
    (closure : next.closure = Function.update state.closure party false)
    (started : next.started = Function.update state.started party (state.started party + 1)) :
    Called state next other := by
  by_cases self : other = party
  · subst self
    exact .called empty present (by rw [closure, Function.update_self])
      (by rw [started, Function.update_self])
  · exact .kept (by rw [closure, Function.update_of_ne self])
      (by rw [started, Function.update_of_ne self])

theorem bring_called (closure : next.closure = Function.update state.closure party true)
    (started : next.started = Function.update state.started party 0) : Called state next other := by
  by_cases self : other = party
  · subst self
    exact .brought (by rw [started, Function.update_self])
  · exact .kept (by rw [closure, Function.update_of_ne self])
      (by rw [started, Function.update_of_ne self])

theorem advance_called (stepped : advance state party = some next) : Called state next other := by
  by_cases quiet : quietAt (state.pc party) = true
  · have frame := advance_frame quiet stepped
    exact .kept (congrFun frame.closure other) (congrFun frame.started other)
  cases source : state.pc party <;> simp [source, quietAt] at quiet <;>
    simp only [advance, source, Option.some.injEq] at stepped
  all_goals subst stepped
  case syncBegin =>
    unfold syncBegin
    split
    · exact .kept rfl rfl
    · rename_i begun won
      obtain ⟨empty, rfl⟩ := tryBeginInit_eq won
      split
      · exact startClosure_called empty ‹_› rfl rfl
      · exact .kept rfl rfl
  case beginInit =>
    unfold beginInit
    split
    · exact .kept rfl rfl
    · rename_i begun won
      obtain ⟨empty, rfl⟩ := tryBeginInit_eq won
      dsimp only
      split
      · exact startClosure_called empty ‹_› rfl rfl
      · exact .kept rfl rfl
  case setBegin =>
    unfold setBegin
    split
    · rename_i begun won
      obtain ⟨-, rfl⟩ := tryBeginInit_eq won
      exact .kept rfl rfl
    · split <;> exact .kept rfl rfl
  all_goals exact .kept rfl rfl

theorem user_called {act : UserAct V} (stepped : user state party act = some next) :
    Called state next other := by
  unfold user at stepped
  split at stepped
  · unfold closureAct at stepped
    split at stepped <;> (try split at stepped) <;> cases stepped <;> exact .kept rfl rfl
  · unfold produceAct at stepped
    split at stepped <;> cases stepped <;> exact .kept rfl rfl
  · unfold driveAct at stepped
    split at stepped <;> (try split at stepped) <;> cases stepped <;> exact .kept rfl rfl
  · unfold dropFutAct at stepped
    split at stepped <;> cases stepped <;> exact .kept rfl rfl
  · cases stepped

theorem begin_called [Fintype ι] {move : Move V} (stepped : begin state party move = some next) :
    Called state next other := by
  cases move <;> simp only [begin] at stepped
  case user | advance => cases stepped
  case get | set => split at stepped <;> cases stepped; exact .kept rfl rfl
  case getOrInit | create => split at stepped <;> cases stepped; exact bring_called rfl rfl
  case poll =>
    split at stepped <;> cases stepped
    unfold poll
    split
    · split <;> exact .kept rfl rfl
    · exact .kept rfl rfl
  case drop =>
    split at stepped <;> cases stepped
    unfold drop
    split
    · exact .kept rfl rfl
    · split <;> exact .kept rfl rfl
  case take =>
    split at stepped <;> cases stepped
    unfold take
    split <;> exact .kept rfl rfl

/-- **Every step of the machine** calls a closure only in an empty cell. -/
theorem step_called [Fintype ι] {label : Label ι V} (stepped : step state label = some next)
    (other : ι) : Called state next other := by
  unfold step at stepped
  split at stepped
  · exact advance_called stepped
  · exact user_called stepped
  · exact begin_called stepped

end Closures

/-! ### Whole runs -/

variable [Fintype ι]

/-- **Agreement is invariant**, under any condition on the steps. -/
theorem agreed_of_reachable {allowed : State ι V → Label ι V → State ι V → Prop}
    (reach : (machine ι V).ReachableBy allowed state) : Agreed state := by
  refine reach.invariant Agreed ?_ ?_
  · rintro _ ⟨value, rfl⟩
    have started : (machine ι V).ReachableBy allowed (start value) := .start ⟨value, rfl⟩
    have parked := parked_of_reachable started
    refine ⟨parked, (fun _ => never), (fun _ => never), (by rintro _ _ ⟨⟩), ?_, ?_, rfl,
      (by rintro _ ⟨⟩), (fun _ => never), (fun _ => never)⟩
    · cases value <;> rintro ⟨⟩
    · cases value <;> simp [start]
  · intro state label next _ agreed stepped _
    have stepped : step state label = some next := stepped
    unfold step at stepped
    split at stepped
    · exact advance_agreed agreed stepped
    · exact user_agreed agreed stepped
    · exact begin_agreed agreed stepped

/-- A closure that was started is gone. -/
theorem started_of_reachable (reach : (machine ι V).Reachable state) (other : ι) :
    state.started other + (state.closure other).toNat ≤ 1 := by
  refine reach.invariant (fun state => state.started other + (state.closure other).toNat ≤ 1) ?_ ?_
  · rintro _ ⟨value, rfl⟩
    exact Nat.zero_le 1
  · intro state label next _ once stepped _
    rcases step_called stepped other with ⟨closure, started⟩ | started | ⟨-, present, gone, started⟩
    · rw [closure, started]
      exact once
    · rw [started, Nat.zero_add]
      exact Bool.toNat_le _
    · rw [present, Bool.toNat_true] at once
      rw [gone, started, Bool.toNat_false]
      omega

/-- **What the callers of a cell agree on.** -/
structure Agreement (state : State ι V) : Prop where
  /-- One party is the initializer, -/
  unique : ∀ party other, Role state party → Role state other → party = other
  /-- while the word is `RUNNING`. -/
  running : ∀ party, Role state party → state.phase = .running
  /-- The slot is initialized when the word is `READY`, or its holder has written it and swaps
  next. -/
  slot : state.slot.isSome = true ↔
    state.phase = .ready ∨ ∃ party after, Role state party ∧ state.pc party = .completeSwap after
  /-- It was written at most once since the last `take`. -/
  written : state.written.length ≤ 1
  /-- No step starts a closure unless the word is `EMPTY`, -/
  unready : ∀ label next party, step state label = some next →
    state.started party < next.started party → state.phase = .empty
  /-- and none has started the closure of a call twice. -/
  started : ∀ party, state.started party ≤ 1
  /-- Whoever got a reference got the value that was written. -/
  returned : ∀ result ∈ state.returned, ∃ value, state.written = [value] ∧ result = some value

/-- **Agreement**: in every state of every run, of whatever user code and whatever cancellations. -/
theorem agreement (reach : (machine ι V).Reachable state) : Agreement state := by
  have agreed := agreed_of_reachable reach
  refine ⟨agreed.unique, agreed.running, ?_, ?_, fun label next party stepped grows => ?_,
    fun party => ?_, fun result member => ?_⟩
  · rw [agreed.slot]
    refine or_congr_right
      ⟨fun ⟨party, after, source⟩ => ⟨party, after, role_of_swap source, source⟩,
      fun ⟨party, after, _, source⟩ => ⟨party, after, source⟩⟩
  · rw [agreed.written]
    cases state.slot <;> simp
  · rcases step_called stepped party with ⟨-, started⟩ | started | ⟨empty, -, -, -⟩
    · exact absurd grows (by omega)
    · exact absurd grows (by omega)
    · exact empty
  · exact le_trans (Nat.le_add_right _ _) (started_of_reachable reach party)
  · obtain ⟨ready, rfl⟩ := agreed.returned result member
    obtain ⟨value, set⟩ := Option.isSome_iff_exists.mp (agreed.slot.mpr (.inl ready))
    exact ⟨value, by rw [agreed.written, set]; rfl, set⟩

/-- The future of `a` becomes the initializer and is dropped between two polls; the thread `b`,
which was parked, takes over and initializes the cell with `7`, and both `b` and `a` get it. -/
def droppedInitializer {ι : Type} (a b : ι) : List (Label ι ℕ) :=
  List.flatten [[(a, .create false), (a, .poll 0), (a, .advance), (a, .advance), (a, .advance),
    (a, .user .done), (a, .user .pending),
    (b, .getOrInit false)], List.replicate 7 (b, .advance), [(a, .drop)],
    List.replicate 6 (a, .advance), List.replicate 3 (b, .advance), [(b, .user (.value 7))],
    List.replicate 4 (b, .advance), [(a, .get), (a, .advance), (a, .advance)]]

/-- Two closures were started, one value was written, and both calls returned it. -/
theorem agreement_droppedInitializer : ∃ state :
    State (Fin 2) ℕ, (machine (Fin 2) ℕ).Reachable state ∧
    state.started 0 = 1 ∧ state.started 1 = 1 ∧ state.returned = [some 7, some 7] ∧
      Agreement state := by
  obtain ⟨state, reach, ended⟩ := System.exists_reachable_of_run (machine (Fin 2) ℕ)
    (fun state => decide (state.started 0 = 1 ∧ state.started 1 = 1 ∧
    state.returned = [some 7, some 7])) ⟨none, rfl⟩ (droppedInitializer 0 1) (by decide +kernel)
  obtain ⟨first, second, same⟩ := of_decide_eq_true ended
  exact ⟨state, reach, first, second, same, agreement reach⟩

end Xutex.OnceCell
