/-
**No waiter of the once-cell is left behind: somebody runs, somebody retries, or somebody drains.**

Waiters park while the word is `RUNNING`. When the initializer fails, the word goes back to `EMPTY`
and one waiter is told to retry; from then on a retry is on its way (`RetryDuty`): somebody is about
to pop a waiter and tell it, a popped waiter was told and has not looked, or a party that was told
contends again. It ends when the party becomes the initializer, or parks again behind another one.
When the initializer succeeds, it drains the queue itself.

`Covered` is the invariant. The delicate point is a waiter that has found the word `RUNNING` under
the tag-lock and is about to link its node (`pushes`): if the word has moved since, whoever moved it
is still in front of the tag-lock.
-/

import Xutex.OnceCell.Agreement

set_option linter.unusedSectionVars false

namespace Xutex.OnceCell

open Concurrency Discipline

variable {ι V : Type} [DecidableEq ι]

/-! ### The duties -/

/-- The party is about to tell a waiter to retry. -/
def passesAt : Pc ι V → Bool
  | .retryLock _ | .retryPop _ | .unlock (.popped (some _) _) => true
  | .signalTake _ _ retry _ | .signalPublish _ _ retry _ => retry
  | _ => false

/-- The party contends for the initializer role, or is on its way to park. -/
def contendsAt : Pc ι V → SignalValue → Bool
  | .syncLoad, _ | .syncBegin, _ | .stateLoad _, _ | .beginInit _, _ => true
  | .enqueueLock _, _ | .enqueueCheck _, _ | .enqueuePush _, _ | .unlock (.state _), _ => true
  | .waitLoad _, value => decide (value = .uninit)
  | _, _ => false

/-- The party is about to drain the queue of an initialized cell. -/
def completesAt : Pc ι V → Bool
  | .completeLock _ | .completeDrain _ => true
  | _ => false

/-- The party is in front of the tag-lock, to look for waiters. -/
def looksAt : Pc ι V → Bool
  | .retryLock _ | .completeLock _ => true
  | _ => false

/-- **A retry is with the party**: it is going to tell a waiter, it was told and has not looked yet,
or it has looked and contends. -/
inductive RetryDuty (state : State ι V) (party : ι) : Prop
  | passes (point : passesAt (state.pc party) = true)
  | told (waits : waitsAt (state.pc party) (state.signal party).value = true)
      (value : (state.signal party).value = .retry)
  | contends (retried : state.retried party = true)
      (point : contendsAt (state.pc party) (state.signal party).value = true)

/-- **The invariant of the waiters.** -/
structure Covered (state : State ι V) : Prop where
  honest : ∀ party, state.retried party = true →
    contendsAt (state.pc party) (state.signal party).value = true
  empty : state.phase = .empty → state.queue.entries ≠ [] → ∃ party, RetryDuty state party
  ready : state.phase = .ready → state.queue.entries ≠ [] → ∃ party, completesAt (state.pc party) =
    true
  pushes : ∀ party mode, state.pc party = .enqueuePush mode →
    (state.phase = .empty → ∃ other after, state.pc other = .retryLock after) ∧
      (state.phase = .ready → ∃ other after, state.pc other = .completeLock after)

variable {state next : State ι V} {party : ι} {pc pc' : Pc ι V}

/-- The party is about to link its node. -/
def pushesAt : Pc ι V → Bool
  | .enqueuePush _ => true
  | _ => false

/-- A party that has nothing to do for the waiters goes from one program point to the next. -/
structure Onward (state next : State ι V) (party : ι) (pc pc' : Pc ι V) : Prop where
  target : next.pc = Function.update state.pc party pc'
  phase : next.phase = state.phase
  retried : next.retried = state.retried
  entries : next.queue.entries = state.queue.entries
  passes : passesAt pc = false
  completes : completesAt pc = false
  push : pushesAt pc' = false

/-- The node of a party that contends is its own. -/
theorem unwaited_of_contends {value : SignalValue} (contends : contendsAt pc value = true) :
    waitsAt pc value = false := by
  cases pc <;> simp_all [contendsAt, waitsAt, valueWaits]
  all_goals rename Unlock ι => back
  all_goals cases back <;> simp_all [Unlock.waits]

/-! ### The rules -/

section Rules

/-- Nobody writes to the node of another party that contends. -/
theorem value_of_contends {other : ι} (waiting : Waiting state)
    (moves : MovesFrom state next party pc)
    (different : other ≠ party)
    (point : contendsAt (state.pc other) (state.signal other).value = true) :
    (next.signal other).value = (state.signal other).value := by
  obtain ⟨pc', moves⟩ := moves
  rcases waiting.value_other moves different with same | ⟨waits, -⟩
  · exact same
  · have waits : waitsAt (state.pc other) (state.signal other).value = true := waits
    rw [unwaited_of_contends point] at waits
    cases waits

/-- A retry with another party stays there. -/
theorem RetryDuty.other {other : ι} (waiting : Waiting state)
    (moves : MovesFrom state next party pc)
    (different : other ≠ party) (retried : next.retried other = state.retried other)
    (duty : RetryDuty state other) : RetryDuty next other := by
  have rest : next.pc other = state.pc other := by
    obtain ⟨pc', moves⟩ := moves
    exact moves.rest different
  cases duty with
  | passes point => exact .passes (by rw [rest]; exact point)
  | told waits value =>
    have same : (next.signal other).value = (state.signal other).value := by
      obtain ⟨pc', moves⟩ := moves
      rcases waiting.value_other moves different with same | ⟨-, -, unsignalled, -⟩
      · exact same
      · have unsignalled : (state.signal other).value.isFinal = false := unsignalled
        rw [value] at unsignalled
        cases unsignalled
    exact .told (by rw [rest, same]; exact waits) (same.trans value)
  | contends again point =>
    have same := value_of_contends waiting moves different point
    exact .contends (retried.trans again) (by rw [rest, same]; exact point)

/-- The flags of the others say what they said. -/
theorem Covered.honest_step (covered : Covered state) (waiting : Waiting state)
    (moves : MovesFrom state next party pc)
    (others : ∀ other, other ≠ party → next.retried other = state.retried other)
    (own : next.retried party = true → contendsAt (next.pc party) (next.signal party).value = true)
    (other : ι)
    (retried : next.retried other = true) : contendsAt (next.pc other) (next.signal other).value =
    true := by
  by_cases self : other = party
  · subst self
    exact own retried
  · have point := covered.honest other ((others other self).symm.trans retried)
    have same := value_of_contends waiting moves self point
    have rest : next.pc other = state.pc other := by
      obtain ⟨pc', moves⟩ := moves
      exact moves.rest self
    rw [rest, same]
    exact point

section

variable (covered : Covered state) (waiting : Waiting state)
  (moves : MovesFrom state next party (state.pc party))
include covered waiting moves

/-- **The rule for a step that leaves the word alone.** -/
theorem Covered.quiet (phase : next.phase = state.phase)
    (others : ∀ other, other ≠ party → next.retried other = state.retried other)
    (honest : next.retried party = true →
      contendsAt (next.pc party) (next.signal party).value = true)
    (entries : next.queue.entries ≠ [] → state.queue.entries ≠ [])
    (duty : state.phase = .empty → next.queue.entries ≠ [] → RetryDuty state party →
      ∃ other, RetryDuty next other)
    (completes : next.queue.entries ≠ [] → completesAt (state.pc party) = true →
      completesAt (next.pc party) = true)
    (free : looksAt (state.pc party) = true → state.queue.holder = none)
    (push : ∀ mode, next.pc party = .enqueuePush mode → state.phase = .running) : Covered next := by
  have rest (other : ι) (different : other ≠ party) : next.pc other = state.pc other := by
    obtain ⟨pc', moves⟩ := moves
    exact moves.rest different
  -- whoever is in front of the tag-lock stays there while another party holds it
  have stays {other pusher : ι} {mode : Mode} (source : state.pc pusher = .enqueuePush mode)
      (looks : looksAt (state.pc other) = true) : next.pc other = state.pc other := by
    refine rest other ?_
    rintro rfl
    have held := (waiting.lock pusher).mp (congrArg lockedAt source)
    have unheld : state.waiters.queue.holder = none := free looks
    rw [unheld] at held
    cases held
  refine ⟨covered.honest_step waiting moves others honest, fun isEmpty linked => ?_,
    fun isReady linked => ?_, fun pusher mode source => ?_⟩
  · rw [phase] at isEmpty
    obtain ⟨other, before⟩ := covered.empty isEmpty (entries linked)
    by_cases self : other = party
    · subst self
      exact duty isEmpty linked before
    · exact ⟨other, before.other waiting moves self (others other self)⟩
  · rw [phase] at isReady
    obtain ⟨other, before⟩ := covered.ready isReady (entries linked)
    by_cases self : other = party
    · subst self
      exact ⟨other, completes linked before⟩
    · exact ⟨other, by rw [rest other self]; exact before⟩
  · rw [phase]
    by_cases self : pusher = party
    · subst self
      rw [push mode source]
      exact ⟨(by rintro ⟨⟩), (by rintro ⟨⟩)⟩
    · rw [rest pusher self] at source
      obtain ⟨empty, ready⟩ := covered.pushes pusher mode source
      refine ⟨fun isEmpty => ?_, fun isReady => ?_⟩
      · obtain ⟨other, after, looks⟩ := empty isEmpty
        exact ⟨other, after, (stays source (by rw [looks]; rfl)).trans looks⟩
      · obtain ⟨other, after, looks⟩ := ready isReady
        exact ⟨other, after, (stays source (by rw [looks]; rfl)).trans looks⟩

/-- **The rule for a step that also leaves the flag of the party alone**, in terms of the two
program points. -/
theorem Covered.goto (source : state.pc party = pc) (target : next.pc party = pc')
    (phase : next.phase = state.phase) (retried : next.retried = state.retried)
    (entries : next.queue.entries ≠ [] → state.queue.entries ≠ [])
    (passes : next.queue.entries ≠ [] → passesAt pc = true → passesAt pc' = true)
    (told : waitsAt pc .retry = true → (state.signal party).value = .retry →
      waitsAt pc' .retry = true ∧ (next.signal party).value = (state.signal party).value)
    (contends : contendsAt pc (state.signal party).value = true →
      contendsAt pc' (next.signal party).value = true)
    (completes : next.queue.entries ≠ [] → completesAt pc = true → completesAt pc' = true)
    (free : looksAt pc = true → state.queue.holder = none)
    (push : ∀ mode, pc' = .enqueuePush mode → state.phase = .running) : Covered next := by
  have honest := covered.honest party
  subst source target
  refine covered.quiet waiting moves phase (fun other _ => congrFun retried other) (fun again => ?_)
    entries (fun _ linked duty => ⟨party, ?_⟩) completes free push
  · exact contends (honest (by rw [← retried]; exact again))
  · cases duty with
    | passes point => exact .passes (passes linked point)
    | told waits value =>
      rw [value] at waits
      obtain ⟨still, same⟩ := told waits value
      have value := same.trans value
      exact .told (by rw [value]; exact still) value
    | contends again point => exact .contends (by rw [retried]; exact again) (contends point)

/-- **The rule for a step by a party without a duty**, which links no node. -/
theorem Covered.onward (source : state.pc party = pc) (onward : Onward state next party pc pc')
    (told : waitsAt pc .retry = true → (state.signal party).value = .retry →
      waitsAt pc' .retry = true ∧ (next.signal party).value = (state.signal party).value)
    (contends : contendsAt pc (state.signal party).value = true →
      contendsAt pc' (next.signal party).value = true) :
    Covered next := by
  have target : next.pc party = pc' := by
    rw [onward.target, Function.update_self]
  refine covered.goto waiting moves source target onward.phase onward.retried
    (by rw [onward.entries]; exact id) ?_ told contends ?_ (fun looks => ?_) fun mode pushes => ?_
  · rw [onward.passes]
    exact fun _ => never
  · rw [onward.completes]
    exact fun _ => never
  · have passes := onward.passes
    have completes := onward.completes
    cases pc <;> first | cases looks; done | cases passes; done | cases completes
  · have push := onward.push
    rw [pushes] at push
    cases push

/-- **The rule for the step that wins the role**: nobody has to cover a running initializer. -/
theorem Covered.runs (phase : next.phase = .running)
    (others : ∀ other, other ≠ party → next.retried other = state.retried other)
    (honest : next.retried party = true →
      contendsAt (next.pc party) (next.signal party).value = true) :
    Covered next := by
  refine ⟨covered.honest_step waiting moves others honest, ?_, ?_, fun _ _ _ => ?_⟩ <;> rw [phase]
  · rintro ⟨⟩
  · rintro ⟨⟩
  · exact ⟨(by rintro ⟨⟩), (by rintro ⟨⟩)⟩

end

end Rules

/-! ### The steps of the code -/

section Steps

theorem finish_point {after : After} : (finish state party after).pc party = finishPc after := by
  cases after <;> simp [finish, finishPc]

theorem finish_retried {after : After} : (finish state party after).retried = state.retried := by
  cases after <;> rfl

theorem finish_queue {after : After} : (finish state party after).queue = state.queue := by
  cases after <;> rfl

theorem finishPc_ne {after : After} {mode : Mode} :
    (finishPc after : Pc ι V) ≠ .enqueuePush mode := by
  cases after <;> rintro ⟨⟩

theorem signalNext_point {retry : Bool} {after : After} {chain : List ι} :
    (signalNext state party retry after chain).pc party = signalPc retry after chain := by
  cases chain with
  | nil => exact finish_point
  | cons node rest => simp [signalNext, signalPc]

theorem signalNext_retried {retry : Bool} {after : After} {chain : List ι} :
    (signalNext state party retry after chain).retried = state.retried := by
  cases chain with
  | nil => exact finish_retried
  | cons node rest => rfl

theorem signalNext_queue {retry : Bool} {after : After} {chain : List ι} :
    (signalNext state party retry after chain).queue = state.queue :=
  congrArg Waiters.queue signalNext_waiters

theorem signalPc_ne {retry : Bool} {after : After} {chain : List ι} {mode : Mode} :
    (signalPc retry after chain : Pc ι V) ≠ .enqueuePush mode := by
  cases chain with
  | nil => exact finishPc_ne
  | cons node rest => rintro ⟨⟩

section

variable (covered : Covered state) (waiting : Waiting state)
include covered waiting

/-- `lock(false)` has found nobody: `complete` or `wake_one_retry` returns. -/
theorem absent_covered {after : After} (source : state.pc party = pc)
    (moves : MovesFrom state (finish state party after) party (state.pc party))
    (absent : state.queue.lock party false = .absent) (told : waitsAt pc .retry = false)
    (contends : contendsAt pc (state.signal party).value = false) :
    Covered (finish state party after) := by
  obtain ⟨unheld, nobody, -⟩ := WaitQueue.lock_absent absent
  have unlinked : ¬(finish state party after).queue.entries ≠ [] := by
    rw [finish_queue, nobody]
    exact not_not.mpr rfl
  refine covered.goto waiting moves source finish_point finish_frame.phase finish_retried
    (fun linked => absurd linked unlinked) (fun linked => absurd linked unlinked) (fun waits => ?_)
    (fun again => ?_) (fun linked => absurd linked unlinked) (fun _ => unheld) fun mode same =>
      absurd same finishPc_ne
  · rw [told] at waits
    cases waits
  · rw [contends] at again
    cases again

/-- The pop of `wake_one_retry`: with a waiter the retry goes on, without one nobody has to be
covered. -/
theorem retryPop_covered {after : After} (source : state.pc party = .retryPop after)
    (moves : MovesFrom state (retryPop state party after) party (state.pc party)) :
    Covered (retryPop state party after) := by
  revert moves
  unfold retryPop
  split
  · rename_i nobody
    exact fun moves => covered.goto waiting moves source (Function.update_self ..) rfl rfl id
      (fun linked => absurd nobody linked) never never (fun _ => never) never (by rintro _ ⟨⟩)
  · rename_i front rest linked
    exact fun moves => covered.goto waiting moves source (Function.update_self ..) rfl rfl
      (fun _ => by rw [linked]; rintro ⟨⟩) (fun _ _ => rfl) never never (fun _ => never) never
      (by rintro _ ⟨⟩)

/-- A waiter is told: the retry is with it. -/
theorem signalPublish_covered {node : ι} {rest : List ι} {retry : Bool} {after : After}
    (source : state.pc party = .signalPublish node rest retry after)
    (moves : MovesFrom state (signalPublish state party node rest retry after) party
      (state.pc party)) :
    Covered (signalPublish state party node rest retry after) := by
  have point : state.waiters.pc party = .signalPublish node rest retry after := source
  obtain ⟨apart, waits, -, -⟩ := waiting.publishes point rfl
  have retried : (signalPublish state party node rest retry after).retried = state.retried :=
    signalNext_retried
  have contends {value : SignalValue} : contendsAt (state.pc party) value = false := by
    rw [source]
    rfl
  refine covered.quiet waiting moves signalNext_frame.phase (fun other _ => congrFun retried other)
    (fun again => ?_) (fun linked => ?_) (fun _ _ duty => ⟨node, ?_⟩) (by rw [source]; rintro _ ⟨⟩)
    (by rw [source]; rintro ⟨⟩) fun mode same => ?_
  · have before := covered.honest party ((congrFun retried party).symm.trans again)
    rw [contends] at before
    cases before
  · rw [signalPublish, signalNext_queue] at linked
    exact linked
  · cases duty with
    | passes point =>
      rw [source] at point
      obtain rfl : retry = true := point
      have value : ((signalPublish state party node rest true after).signal node).value =
          .retry := by
        have signals : (signalPublish state party node rest true after).signal = _ :=
          congrArg Waiters.signal signalNext_waiters
        rw [signals]
        simp [signalValue]
      have rested : (signalPublish state party node rest true after).pc node = state.pc node := by
        obtain ⟨pc', moves⟩ := moves
        exact moves.rest apart
      refine .told ?_ value
      rw [rested, value]
      exact discipline.signalledWaits waits rfl
    | told waits value =>
      rw [source] at waits
      cases waits
    | contends again point =>
      rw [contends] at point
      cases point
  · exact absurd (signalNext_point.symm.trans same) signalPc_ne

/-- A node is linked under the tag-lock: whoever has moved the word since it was read still has to
look. -/
theorem enqueuePush_covered {mode : Mode} (source : state.pc party = .enqueuePush mode)
    (moves : MovesFrom state (enqueuePush state party mode) party (state.pc party)) :
    Covered (enqueuePush state party mode) := by
  obtain ⟨empty, ready⟩ := covered.pushes party mode source
  have rest (other : ι) (different : other ≠ party) :
      (enqueuePush state party mode).pc other = state.pc other :=
    Function.update_of_ne different _ _
  have apart {other : ι} (looks : looksAt (state.pc other) = true) : other ≠ party := by
    rintro rfl
    rw [source] at looks
    cases looks
  refine ⟨covered.honest_step waiting moves
    (fun other different => Function.update_of_ne different _ _) ?_,
    fun isEmpty _ => ?_, fun isReady _ => ?_, fun pusher mode' pushes => ?_⟩
  · simp [enqueuePush]
  · obtain ⟨other, after, looks⟩ := empty isEmpty
    have different : other ≠ party := apart (by rw [looks]; rfl)
    exact ⟨other, .passes (by rw [rest other different, looks]; rfl)⟩
  · obtain ⟨other, after, looks⟩ := ready isReady
    have different : other ≠ party := apart (by rw [looks]; rfl)
    exact ⟨other, by rw [rest other different, looks]; rfl⟩
  · by_cases self : pusher = party
    · subst self
      simp [enqueuePush] at pushes
    · rw [rest pusher self] at pushes
      exact absurd (waiting.lock_unique (congrArg lockedAt pushes) (congrArg lockedAt source)) self

/-- The word goes to `EMPTY`: the party itself is in front of the tag-lock, to pass a retry on. -/
theorem abortSwap_covered {after : After} (source : state.pc party = .abortSwap after)
    (moves : MovesFrom state (abortSwap state party after) party (state.pc party)) :
    Covered (abortSwap state party after) := by
  have point : (abortSwap state party after).pc party = .retryLock after := Function.update_self ..
  refine ⟨covered.honest_step waiting moves (fun _ _ => rfl) fun again => ?_,
    fun _ _ => ⟨party, .passes (by rw [point]; rfl)⟩, (by rintro ⟨⟩),
    fun _ _ _ => ⟨fun _ => ⟨party, after, point⟩, (by rintro ⟨⟩)⟩⟩
  have before := covered.honest party again
  rw [source] at before
  cases before

/-- The word goes to `READY`: the party itself is in front of the tag-lock, to drain the queue. -/
theorem completeSwap_covered {after : After} (source : state.pc party = .completeSwap after)
    (moves : MovesFrom state (completeSwap state party after) party (state.pc party)) :
    Covered (completeSwap state party after) := by
  have point : (completeSwap state party after).pc party = .completeLock after :=
    Function.update_self ..
  refine ⟨covered.honest_step waiting moves (fun _ _ => rfl) fun again => ?_, (by rintro ⟨⟩),
    fun _ _ => ⟨party, by rw [point]; rfl⟩,
    fun _ _ _ => ⟨(by rintro ⟨⟩), fun _ => ⟨party, after, point⟩⟩⟩
  have before := covered.honest party again
  rw [source] at before
  cases before

/-- The wait of a thread ends: if it was told to retry, it contends. -/
theorem syncFinal_covered {read : State ι V}
    (source : state.pc party = .syncSwap ∨ state.pc party = .syncPark)
    (moves : MovesFrom state (syncFinal read party (state.signal party).value) party
      (state.pc party))
    (phase : read.phase = state.phase) (queue : read.queue = state.queue)
    (retried : read.retried = state.retried) :
    Covered (syncFinal read party (state.signal party).value) := by
  have point : passesAt (state.pc party) = false ∧
      contendsAt (state.pc party) (state.signal party).value = false ∧
      completesAt (state.pc party) = false ∧ looksAt (state.pc party) = false := by
    rcases source with source | source <;> rw [source] <;> exact ⟨rfl, rfl, rfl, rfl⟩
  obtain ⟨passes, contends, completes, looks⟩ := point
  have target : (syncFinal read party (state.signal party).value).pc party = .syncLoad :=
    Function.update_self ..
  refine covered.quiet waiting moves phase (fun other different => ?_)
    (by rw [target]; exact fun _ => rfl) ?_
    (fun _ _ duty => ⟨party, ?_⟩) (by rw [completes]; rintro _ ⟨⟩) (by rw [looks]; rintro ⟨⟩)
      (by rw [target]; rintro _ ⟨⟩)
  · simp [syncFinal, different, retried]
  · simp [syncFinal, queue]
  · cases duty with
    | passes point =>
      rw [passes] at point
      cases point
    | told waits value =>
      refine .contends ?_ (by rw [target]; rfl)
      simp [syncFinal, value]
    | contends again point =>
      rw [contends] at point
      cases point

/-- The load at the top of the loop of a thread. -/
theorem syncLoad_covered (source : state.pc party = .syncLoad)
    (moves : MovesFrom state (syncLoad state party) party (state.pc party)) :
    Covered (syncLoad state party) := by
  have others {retried : Bool} (other : ι) (different : other ≠ party) :
      Function.update state.retried party retried other = state.retried other :=
    Function.update_of_ne different _ _
  revert moves
  unfold syncLoad
  split
  · rename_i ready
    refine fun moves => covered.quiet waiting moves rfl others (by simp) id (fun empty => ?_)
      (by rw [source]; rintro _ ⟨⟩) (by rw [source]; rintro ⟨⟩) (by simp)
    rw [ready] at empty
    cases empty
  all_goals
    exact fun moves => covered.onward waiting moves source ⟨rfl, rfl, rfl, rfl, rfl, rfl, rfl⟩ never
      fun _ => rfl

theorem stateLoad_covered {waker : Waker} (source : state.pc party = .stateLoad waker)
    (moves : MovesFrom state (stateLoad state party waker) party (state.pc party)) :
    Covered (stateLoad state party waker) := by
  have others {retried : Bool} (other : ι) (different : other ≠ party) :
      Function.update state.retried party retried other = state.retried other :=
    Function.update_of_ne different _ _
  revert moves
  unfold stateLoad
  split
  · rename_i ready
    refine fun moves => covered.quiet waiting moves rfl others (by simp [markReturned]) id
      (fun empty => ?_) (by rw [source]; rintro _ ⟨⟩) (by rw [source]; rintro ⟨⟩) (by simp)
    rw [ready] at empty
    cases empty
  all_goals
    exact fun moves => covered.onward waiting moves source ⟨rfl, rfl, rfl, rfl, rfl, rfl, rfl⟩ never
      fun _ => rfl

/-- The load at the top of the loop of a poll: a retry that is read is contended for. -/
theorem waitLoad_covered {waker : Waker} (source : state.pc party = .waitLoad waker)
    (moves : MovesFrom state (waitLoad state party waker) party (state.pc party)) :
    Covered (waitLoad state party waker) := by
  revert moves
  unfold waitLoad
  split
  case h_1 value | h_3 value | h_4 value =>
    exact fun moves => covered.onward waiting moves source ⟨rfl, rfl, rfl, rfl, rfl, rfl, rfl⟩
      (by rw [value]; rintro _ ⟨⟩) (by rw [value]; rintro ⟨⟩)
  case h_2 value =>
    exact fun moves =>
      covered.quiet waiting moves rfl (fun other different => Function.update_of_ne different _ _)
      (by simp [contendsAt]) id (fun _ _ _ => ⟨party, .contends (by simp) (by simp [contendsAt])⟩)
      (by rw [source]; rintro _ ⟨⟩) (by rw [source]; rintro ⟨⟩) (by simp)
  case h_5 value | h_6 value | h_7 value =>
    exact fun moves => covered.onward waiting moves source ⟨rfl, rfl, rfl, rfl, rfl, rfl, rfl⟩
      (by rw [value]; rintro _ ⟨⟩) (fun _ => rfl)

/-- The node of a party that unlocks, and its retry, are where they were. -/
theorem unlock_covered {back : Unlock ι} (source : state.pc party = .unlock back)
    (moves : MovesFrom state (unlocked { state with queue := state.queue.unlock } party back) party
      (state.pc party)) :
    Covered (unlocked { state with queue := state.queue.unlock } party back) := by
  revert moves
  unfold unlocked
  split
  · exact fun moves => covered.goto waiting moves source signalNext_point signalNext_frame.phase
      signalNext_retried
      (by rw [signalNext_queue]; exact id) (fun _ => never) never never (fun _ => never) never
        fun mode same => absurd same signalPc_ne
  · exact fun moves => covered.goto waiting moves source finish_point finish_frame.phase
      finish_retried
      (by rw [finish_queue]; exact id) (fun _ => never) never never (fun _ => never) never
        fun mode same => absurd same finishPc_ne
  · exact fun moves => covered.goto waiting moves source (Function.update_self ..) rfl rfl id
      (fun _ _ => rfl) never never (fun _ => never) never (by rintro _ ⟨⟩)
  · exact fun moves => covered.onward waiting moves source ⟨rfl, rfl, rfl, rfl, rfl, rfl, rfl⟩ never
      (fun _ => rfl)
  · exact fun moves => covered.onward waiting moves source ⟨rfl, rfl, rfl, rfl, rfl, rfl, rfl⟩ never
      (fun _ => by simp [contendsAt])
  · exact fun moves => covered.onward waiting moves source ⟨rfl, rfl, rfl, rfl, rfl, rfl, rfl⟩
      (fun _ _ => ⟨rfl, rfl⟩) never
  · exact fun moves => covered.onward waiting moves source ⟨rfl, rfl, rfl, rfl, rfl, rfl, rfl⟩
      (fun _ _ => ⟨rfl, rfl⟩) never
  · exact fun moves => covered.onward waiting moves source ⟨rfl, rfl, rfl, rfl, rfl, rfl, rfl⟩
      never never
  · exact fun moves => covered.onward waiting moves source ⟨rfl, rfl, rfl, rfl, rfl, rfl, rfl⟩
      (fun _ _ => ⟨rfl, rfl⟩) never

/-- **Every step of the code keeps the waiters covered.** -/
theorem advance_covered (stepped : advance state party = some next) : Covered next := by
  have moves := advance_moves waiting stepped
  have others {retried : Bool} (other : ι) (different : other ≠ party) :
      Function.update state.retried party retried other = state.retried other :=
    Function.update_of_ne different _ _
  cases source : state.pc party <;>
    simp only [advance, source, Option.some.injEq, reduceCtorEq] at stepped
  case completeLock after =>
    unfold completeLock at stepped
    split at stepped <;> cases stepped
    · exact absent_covered covered waiting source moves ‹_› rfl rfl
    · obtain ⟨unheld, rfl, -⟩ := WaitQueue.lock_acquired ‹_›
      exact covered.goto waiting moves source (Function.update_self ..) rfl rfl id (fun _ => never)
        never never (fun _ _ => rfl) (fun _ => unheld) (by rintro _ ⟨⟩)
  case retryLock after =>
    unfold retryLock at stepped
    split at stepped <;> cases stepped
    · exact absent_covered covered waiting source moves ‹_› rfl rfl
    · obtain ⟨unheld, rfl, -⟩ := WaitQueue.lock_acquired ‹_›
      exact covered.goto waiting moves source (Function.update_self ..) rfl rfl id (fun _ _ => rfl)
        never never (fun _ => never) (fun _ => unheld) (by rintro _ ⟨⟩)
  case enqueueLock mode =>
    unfold enqueueLock at stepped
    split at stepped <;> cases stepped
    obtain ⟨-, rfl, -⟩ := WaitQueue.lock_acquired ‹_›
    exact covered.onward waiting moves source ⟨rfl, rfl, rfl, rfl, rfl, rfl, rfl⟩ never
      (fun _ => rfl)
  case cancelLock =>
    unfold cancelLock at stepped
    split at stepped <;> cases stepped
    · exact covered.onward waiting moves source ⟨rfl, rfl, rfl, rfl, rfl, rfl, rfl⟩
        (fun _ _ => ⟨rfl, rfl⟩) never
    · obtain ⟨-, rfl, -⟩ := WaitQueue.lock_acquired ‹_›
      exact covered.onward waiting moves source ⟨rfl, rfl, rfl, rfl, rfl, rfl, rfl⟩
        (fun _ _ => ⟨rfl, rfl⟩) never
  case syncPark =>
    unfold syncPark at stepped
    dsimp only at stepped
    split at stepped <;> cases stepped
    exact syncFinal_covered covered waiting (.inr source) moves rfl rfl rfl
  case cancelWait =>
    unfold cancelWait at stepped
    dsimp only at stepped
    split at stepped <;> cases stepped
    revert moves
    split
    · exact fun moves => covered.quiet waiting moves rfl (fun _ _ => rfl)
        (fun again => by have := covered.honest party again; rw [source] at this; cases this) id
        (fun _ _ _ => ⟨party, .passes (by simp [passesAt])⟩) (by rw [source]; rintro _ ⟨⟩)
          (by rw [source]; rintro ⟨⟩) (by simp)
    · exact fun moves => covered.onward waiting moves source ⟨rfl, rfl, rfl, rfl, rfl, rfl, rfl⟩
        (fun _ value => absurd value ‹_›) never
  all_goals subst stepped
  case syncLoad => exact syncLoad_covered covered waiting source moves
  case stateLoad => exact stateLoad_covered covered waiting source moves
  case waitLoad => exact waitLoad_covered covered waiting source moves
  case abortSwap => exact abortSwap_covered covered waiting source moves
  case completeSwap => exact completeSwap_covered covered waiting source moves
  case retryPop => exact retryPop_covered covered waiting source moves
  case enqueuePush => exact enqueuePush_covered covered waiting source moves
  case signalPublish => exact signalPublish_covered covered waiting source moves
  case unlock => exact unlock_covered covered waiting source moves
  case getLoad =>
    revert moves
    unfold getLoad
    split <;> exact fun moves =>
      covered.onward waiting moves source ⟨rfl, rfl, rfl, rfl, rfl, rfl, rfl⟩ never never
  case initGet =>
    revert moves
    unfold initGet
    split <;> exact fun moves =>
      covered.onward waiting moves source ⟨rfl, rfl, rfl, rfl, rfl, rfl, rfl⟩ never never
  case valueRef polled =>
    cases polled <;> exact covered.onward waiting moves source ⟨rfl, rfl, rfl, rfl, rfl, rfl, rfl⟩
      never never
  case writeSlot value after =>
    exact covered.onward waiting moves source ⟨rfl, rfl, rfl, rfl, rfl, rfl, rfl⟩ never never
  case completeDrain after =>
    exact covered.goto waiting moves source (Function.update_self ..) rfl rfl
      (fun linked => absurd rfl linked)
      (fun _ => never) never never (fun linked => absurd rfl linked) never (by rintro _ ⟨⟩)
  case enqueueCheck mode =>
    revert moves
    unfold enqueueCheck
    split
    · exact fun moves => covered.goto waiting moves source (Function.update_self ..) rfl rfl id
        (fun _ => never) never (fun _ => rfl) (fun _ => never) never fun _ _ => ‹_›
    · exact fun moves => covered.onward waiting moves source ⟨rfl, rfl, rfl, rfl, rfl, rfl, rfl⟩
        never (fun _ => rfl)
  case signalTake node rest retry after =>
    exact covered.goto waiting moves source (Function.update_self ..) rfl rfl id (fun _ => id)
      never never (fun _ => never) never (by rintro _ ⟨⟩)
  case syncSwap =>
    revert moves
    unfold syncSwap
    dsimp only
    split
    · exact fun moves => syncFinal_covered covered waiting (.inl source) moves rfl rfl rfl
    · rename_i unsignalled
      exact fun moves => covered.onward waiting moves source ⟨rfl, rfl, rfl, rfl, rfl, rfl, rfl⟩
        (fun _ value => absurd (congrArg SignalValue.isFinal value) unsignalled) never
  case rearmRegister waker =>
    revert moves
    unfold rearmRegister
    dsimp only
    split <;> exact fun moves => covered.onward waiting moves source
      ⟨rfl, rfl, rfl, rfl, rfl, rfl, rfl⟩ (fun _ _ => ⟨rfl, by simp⟩) never
  case rearmLoad waker =>
    revert moves
    unfold rearmLoad
    split <;> exact fun moves => covered.onward waiting moves source
      ⟨rfl, rfl, rfl, rfl, rfl, rfl, rfl⟩ (fun _ _ => ⟨rfl, rfl⟩) never
  case cancelRemove =>
    revert moves
    unfold cancelRemove
    split
    · rename_i linked
      have unsignalled := (waiting.queued linked).2
      refine fun moves => covered.goto waiting moves source (Function.update_self ..) rfl rfl
        (fun _ => List.ne_nil_of_mem linked) (fun _ => never) (fun _ value => ?_) never
        (fun _ => never) never (by rintro _ ⟨⟩)
      have unsignalled : (state.signal party).value.isFinal = false := unsignalled
      rw [value] at unsignalled
      cases unsignalled
    · exact fun moves => covered.onward waiting moves source ⟨rfl, rfl, rfl, rfl, rfl, rfl, rfl⟩
        (fun _ _ => ⟨rfl, rfl⟩) never
  case syncBegin =>
    revert moves
    unfold syncBegin
    split
    · exact fun moves => covered.onward waiting moves source ⟨rfl, rfl, rfl, rfl, rfl, rfl, rfl⟩
        never (fun _ => rfl)
    · rename_i begun won
      obtain ⟨-, rfl⟩ := tryBeginInit_eq won
      split <;> exact fun moves => covered.runs waiting moves rfl others (by simp)
  case beginInit waker =>
    have fresh : (state.signal party).value = .uninit :=
      waiting.owned party .uninit (congrArg ownValue source)
    revert moves
    unfold beginInit
    split
    · exact fun moves => covered.onward waiting moves source ⟨rfl, rfl, rfl, rfl, rfl, rfl, rfl⟩
        never (fun _ => decide_eq_true fresh)
    · rename_i begun won
      obtain ⟨-, rfl⟩ := tryBeginInit_eq won
      dsimp only
      split <;> exact fun moves => covered.runs waiting moves rfl others (by simp [markReturned])
  case setBegin value =>
    revert moves
    unfold setBegin
    split
    · rename_i begun won
      obtain ⟨-, rfl⟩ := tryBeginInit_eq won
      exact fun moves => covered.runs waiting moves rfl others (by simp)
    · split <;> exact fun moves =>
        covered.onward waiting moves source ⟨rfl, rfl, rfl, rfl, rfl, rfl, rfl⟩ never never

/-- **Every step of user code keeps the waiters covered**: the initializer goes on. -/
theorem user_covered {act : UserAct V} (stepped : user state party act = some next) :
    Covered next := by
  have moves := user_moves waiting stepped
  cases source : state.pc party <;> simp only [user, source, reduceCtorEq] at stepped
  case closure =>
    unfold closureAct at stepped
    split at stepped <;> (try split at stepped) <;> cases stepped <;>
      exact covered.onward waiting moves source ⟨rfl, rfl, rfl, rfl, rfl, rfl, rfl⟩ never never
  case produce =>
    unfold produceAct at stepped
    split at stepped <;> cases stepped <;>
      exact covered.onward waiting moves source ⟨rfl, rfl, rfl, rfl, rfl, rfl, rfl⟩ never never
  case drive =>
    unfold driveAct at stepped
    split at stepped <;> (try split at stepped) <;> cases stepped <;>
      exact covered.onward waiting moves source ⟨rfl, rfl, rfl, rfl, rfl, rfl, rfl⟩ never never
  case dropFut result =>
    unfold dropFutAct at stepped
    split at stepped <;> cases stepped
    · cases result <;>
        exact covered.onward waiting moves source ⟨rfl, rfl, rfl, rfl, rfl, rfl, rfl⟩ never never
    · exact covered.onward waiting moves source ⟨rfl, rfl, rfl, rfl, rfl, rfl, rfl⟩ never never

theorem poll_covered {waker : Waker} (source : state.pc party = .future)
    (marked : state.initializing party = true → (state.signal party).value = .returned)
    (moves : MovesFrom state (poll state party waker) party (state.pc party)) :
    Covered (poll state party waker) := by
  revert moves
  unfold poll
  split
  · rename_i up
    have untold (value : (state.signal party).value = .retry) : False := by
      rw [marked up] at value
      cases value
    split <;> exact fun moves => covered.onward waiting moves source
      ⟨rfl, rfl, rfl, rfl, rfl, rfl, rfl⟩ (fun _ value => (untold value).elim) never
  · exact fun moves => covered.onward waiting moves source ⟨rfl, rfl, rfl, rfl, rfl, rfl, rfl⟩
      (fun _ _ => ⟨rfl, rfl⟩) never

/-- A future that was told to retry passes the retry on when it is dropped. -/
theorem drop_covered (source : state.pc party = .future)
    (marked : state.initializing party = true → (state.signal party).value = .returned)
    (moves : MovesFrom state (drop state party) party (state.pc party)) :
    Covered (drop state party) := by
  revert moves
  unfold drop
  split
  · rename_i up
    exact fun moves => covered.onward waiting moves source ⟨rfl, rfl, rfl, rfl, rfl, rfl, rfl⟩
      (by rw [marked up]; rintro _ ⟨⟩) never
  · split
    case h_1 value | h_2 value | h_3 value =>
      exact fun moves => covered.onward waiting moves source ⟨rfl, rfl, rfl, rfl, rfl, rfl, rfl⟩
        (by rw [value]; rintro _ ⟨⟩) never
    case h_4 value =>
      refine fun moves => covered.quiet waiting moves rfl (fun _ _ => rfl) (fun again => ?_) id
        (fun _ _ _ => ⟨party, .passes (by simp [passesAt])⟩) (by rw [source]; rintro _ ⟨⟩)
        (by rw [source]; rintro ⟨⟩) (by simp)
      have before := covered.honest party again
      rw [source] at before
      cases before
    case h_5 value | h_6 value | h_7 value =>
      exact fun moves => covered.onward waiting moves source ⟨rfl, rfl, rfl, rfl, rfl, rfl, rfl⟩
        (fun _ _ => ⟨rfl, rfl⟩) never

/-- `take` finds nobody in the queue. -/
theorem take_covered (idle : ∀ other, state.pc other = .idle) : Covered (take state party) := by
  have nobody : state.queue.entries = [] := by
    by_contra linked
    obtain ⟨other, member⟩ := List.exists_mem_of_ne_nil _ linked
    have waits : waitsAt (state.pc other) (state.signal other).value = true :=
      (waiting.queued member).1
    rw [idle] at waits
    cases waits
  unfold take
  split
  · exact ⟨covered.honest, fun _ linked => absurd nobody linked, (by rintro ⟨⟩),
      fun pusher mode source => by cases (idle pusher).symm.trans source⟩
  · exact ⟨covered.honest, fun _ linked => absurd nobody linked,
      fun _ linked => absurd nobody linked,
      fun pusher mode source => by cases (idle pusher).symm.trans source⟩

end

/-- **The beginning of every call keeps the waiters covered.** -/
theorem begin_covered [Fintype ι] {move : Move V} (covered : Covered state) (parked : Parked state)
    (stepped : begin state party move = some next) : Covered next := by
  have waiting := parked.waiting
  have marked (up : state.initializing party = true) := (parked.marked party up).2
  by_cases isTake : move = .take
  · subst isTake
    simp only [begin] at stepped
    split at stepped <;> cases stepped
    exact take_covered covered waiting fun other =>
      isIdle_iff.mp (‹∀ other, (state.pc other).isIdle = true› other)
  have moves := begin_moves isTake marked stepped
  cases move <;> simp only [begin] at stepped
  case user | advance => cases stepped
  case take => exact absurd rfl isTake
  case get | set | getOrInit | create =>
    split at stepped <;> cases stepped
    exact covered.onward waiting moves (isIdle_iff.mp ‹_›) ⟨rfl, rfl, rfl, rfl, rfl, rfl, rfl⟩
      never never
  case poll waker =>
    split at stepped <;> cases stepped
    exact poll_covered covered waiting ‹_› marked moves
  case drop =>
    split at stepped <;> cases stepped
    exact drop_covered covered waiting ‹_› marked moves

end Steps

/-! ### Whole runs -/

variable [Fintype ι]

/-- **The waiters are covered in every reachable state**, under any condition on the steps. -/
theorem covered_of_reachable {allowed : State ι V → Label ι V → State ι V → Prop}
    (reach : (machine ι V).ReachableBy allowed state) : Covered state := by
  refine reach.invariant Covered ?_ ?_
  · rintro _ ⟨value, rfl⟩
    exact ⟨(fun _ => never), fun _ linked => absurd rfl linked, fun _ linked => absurd rfl linked,
      (by rintro _ _ ⟨⟩)⟩
  · intro state label next reach covered stepped _
    have parked := parked_of_reachable reach
    have stepped : step state label = some next := stepped
    unfold step at stepped
    split at stepped
    · exact advance_covered covered parked.waiting stepped
    · exact user_covered covered parked.waiting stepped
    · exact begin_covered covered parked stepped

/-- **No waiter is stranded**: behind the free tag-lock nodes are linked only while a retry is on
its way, somebody is about to drain the queue, or an initializer runs. The initializer is a party
that holds the role, unless the destructor of a user future has panicked inside a poll. -/
theorem waiters_covered (reach : (machine ι V).Reachable state) (linked : state.queue.entries ≠ [])
    (_unlocked : state.queue.holder = none) :
    (state.phase = .empty → ∃ party, RetryDuty state party) ∧
      (state.phase = .ready → ∃ party, completesAt (state.pc party) = true) ∧
      ((∀ party, ¬RetryDuty state party) → (∀ party, completesAt (state.pc party) = false) →
        state.phase = .running ∧ (state.leaked = false → ∃ party, Role state party)) := by
  have covered := covered_of_reachable reach
  refine ⟨fun empty => covered.empty empty linked, fun ready => covered.ready ready linked,
    fun none nobody => ?_⟩
  have running : state.phase = .running := by
    cases phase : state.phase with
    | empty =>
      obtain ⟨party, duty⟩ := covered.empty phase linked
      exact absurd duty (none party)
    | running => rfl
    | ready =>
      obtain ⟨party, completes⟩ := covered.ready phase linked
      rw [nobody party] at completes
      cases completes
  exact ⟨running, (agreed_of_reachable reach).held running⟩

/-- The closure of `a` panics while `b` and `c` wait; `a` pops `b` and unlocks. -/
def panicsBeforeTwo {ι : Type} (a b c : ι) : List (Label ι ℕ) :=
  List.flatten
    [[(a, .getOrInit false), (a, .advance), (a, .advance), (a, .advance), (b, .getOrInit false)],
    List.replicate 6 (b, .advance), [(c, .getOrInit false)], List.replicate 6 (c, .advance),
    [(a, .user .panic)], List.replicate 4 (a, .advance)]

/-- The cell is empty, `2` is linked, and the retry is with `0`. -/
theorem waiters_covered_panicked : ∃ state : State (Fin 3) ℕ, (machine (Fin 3) ℕ).Reachable state ∧
    state.queue.entries = [2] ∧ state.queue.holder = none ∧ state.phase = .empty ∧
    ∃ party, RetryDuty state party := by
  obtain ⟨state, reach, ended⟩ := System.exists_reachable_of_run (machine (Fin 3) ℕ)
    (fun state => decide (state.queue.entries = [2] ∧ state.queue.holder = none ∧
    state.phase = .empty)) ⟨none, rfl⟩ (panicsBeforeTwo 0 1 2) (by decide +kernel)
  obtain ⟨linked, unheld, empty⟩ := of_decide_eq_true ended
  exact ⟨state, reach, linked, unheld, empty,
    (waiters_covered reach (by rw [linked]; rintro ⟨⟩) unheld).1 empty⟩

end Xutex.OnceCell
