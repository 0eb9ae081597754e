/-
**What a closed wait gives back.**

The closer signals the nodes it has popped with `SIGNAL_CLOSED` and does not know how much each of
them asked for. The owner does: it gives back what a drain had served it, `requested - aux`, and
reports the closure. `Popped` is a node on this way, from the pop to the step in which its owner
takes it back; `Refunds` is that step. The release that follows adds to the pool once
(`releaseAdd`), drains the queue (`returningAt`) and ends the call (`Ended`).

* `Missing` — no node was served more than it asked for, so that `requested - aux` is not cut off.
* `closing_complete` — **closing is final and complete**, in every run.
-/

import Xutex.Semaphore.Closing
import Xutex.Semaphore.Permits

set_option linter.unusedSectionVars false

namespace Xutex.Semaphore

open Concurrency Discipline

variable {ι γ : Type} [DecidableEq ι] [DecidableEq γ]

/-! ### The way of a closed wait -/

/-- Where the owner of a closed node goes from the point at which it takes the node back: a blocking
call and a poll report the closure, a drop reports nothing. -/
def closedAfter : Pc ι γ → After γ
  | .syncSpin | .syncSwap | .syncPark => .closedWait
  | .future | .rearmLoad _ => .closedPoll
  | _ => .done

/-- The points of a `release` after its `fetch_add`. -/
def returningAt : Pc ι γ → Option (After γ)
  | .drainLock after | .drainLoad after | .drainCas after _ => some after
  | .drainServe after _ | .drainReturn after _ _ => some after
  | .unlock (.drained _ after) | .unlockStore (.drained _ after) => some after
  | .signalTake _ _ false after | .signalPublish _ _ false after => some after
  | _ => none

/-- The call of `party` is over, with the report of `after`. -/
def Ended (state next : State ι γ) (party : ι) : After γ → Prop
  | .closedWait => next.pc party = .idle ∧ next.outcome party = some (.refused .closed)
  | .closedPoll => next.pc party = .future ∧ next.outcome party = some (.refused .closed)
  | .done | .grant _ => next.pc party = .idle ∧ next.outcome party = state.outcome party

/-- **The owner takes its closed node back**: it goes on to put back what it was served, if
anything. -/
def Refunds (state next : State ι γ) (node : ι) : Prop :=
  if state.granted node = 0 then Ended state next node (closedAfter (state.pc node))
  else next.pc node = .releaseAdd (state.granted node) (closedAfter (state.pc node))

/-- **The closer has popped the node**, and its owner has not taken it back. -/
structure Popped (width : PointerWidth) (state : State ι γ) (node : ι) : Prop where
  waits : masked.Waits (state.masked width) node
  signal : (state.signal node).value = .closed ∨
    ∃ closer, closingAt (state.pc closer) = true ∧ node ∈ chainOf (state.pc closer)

section Steps

variable {width : PointerWidth} {state next : State ι γ} {party node : ι} {after : After γ}
  {mode : Mode}

theorem finish_ended {before : State ι γ} (outcome : before.outcome party = state.outcome party) :
    Ended state (finish before party after) party after := by
  cases after <;> simp [finish, Ended, outcome]

theorem release_refunds {before : State ι γ} (outcome : before.outcome party = state.outcome party)
    (back : closedAfter (state.pc party) = after) :
    Refunds state (release before party (state.granted party) after) party := by
  subst back
  unfold Refunds release
  split
  · exact finish_ended outcome
  · exact Function.update_self ..

/-! ### What the owner of a waiting node does -/

/-- A step of a party whose node is given away: the node stays so, or the owner unlinks it, or takes
it back with a final value. -/
structure OwnerStep (state next : State ι γ) (party : ι) : Prop where
  aux : (next.signal party).aux = (state.signal party).aux
  goes : (waitsAt (next.pc party) (next.signal party).value = true ∧
      ((state.signal party).value.isFinal = true →
      (next.signal party).value = (state.signal party).value)) ∨
    (state.pc party = .cancelRemove ∧ party ∈ state.queue.entries) ∨
    ((state.signal party).value.isFinal = true ∧
      waitsAt (next.pc party) (next.signal party).value = false ∧
      ((state.signal party).value = .closed → Refunds state next party))

/-- The node is not written. -/
theorem OwnerStep.stays (signal : next.signal party = state.signal party)
    (waits : waitsAt (next.pc party) (state.signal party).value = true) :
    OwnerStep state next party :=
  ⟨by rw [signal], .inl ⟨by rw [signal]; exact waits, fun _ => by rw [signal]⟩⟩

theorem release_signal {before : State ι γ} {n : ℕ} :
    (release before party n after).signal = before.signal :=
  congrArg Waiters.signal release_waiters

/-- The node of a party that releases is its own. -/
theorem release_free {before : State ι γ} {n : ℕ}
    (complete : Complete after (before.signal party).value) :
    waitsAt ((release before party n after).pc party)
      ((release before party n after).signal party).value = false := by
  have pc : (release before party n after).pc party = releasePc n after := by
    rw [show (release before party n after).pc = Function.update before.pc party (releasePc n after)
      from congrArg Waiters.pc release_waiters, Function.update_self]
  have returns : Returns after (before.signal party).value [] (releasePc n after : Pc ι γ) :=
    releasePc_returns complete
  rw [pc, release_signal]
  exact returns.waits

/-- `finish_sync` on the value that was read. -/
theorem finishSync_owner {before : State ι γ} (source : closedAfter (state.pc party) = .closedWait)
    (final : (state.signal party).value.isFinal = true)
    (aux : (before.signal party).aux = (state.signal party).aux)
    (request : before.request = state.request) (outcome : before.outcome = state.outcome) :
    OwnerStep state (finishSync before party (state.signal party).value) party := by
  unfold finishSync
  split
  · rename_i signaled
    refine ⟨aux, .inr (.inr ⟨final, by simp [acquired, waitsAt], fun closed => ?_⟩)⟩
    rw [signaled] at closed
    cases closed
  · refine ⟨by rw [release_signal]; exact aux, .inr (.inr
      ⟨final, release_free (complete_of_none rfl), fun _ => ?_⟩)⟩
    have granted : before.granted party = state.granted party := by
      rw [State.granted, State.requested, request, aux]
    rw [granted]
    exact release_refunds (by rw [outcome]) source

/-- The end of a poll on the value that was read. -/
theorem pollFinal_owner {waker : Waker} (source : closedAfter (state.pc party) = .closedPoll)
    (final : (state.signal party).value.isFinal = true) :
    OwnerStep state (pollFinal state party waker (state.signal party).value) party := by
  unfold pollFinal
  split
  · rename_i returned
    refine ⟨rfl, .inr (.inr ⟨final, by simp [waitsAt, returned, valueWaits], fun closed => ?_⟩)⟩
    rw [returned] at closed
    cases closed
  · split
    · refine ⟨?_, .inr (.inr ⟨final, release_free fun value own => ?_, fun _ => ?_⟩)⟩
      · rw [release_signal]
        simp
      · cases own
        simp
      · exact release_refunds rfl source
    · rename_i open'
      refine ⟨?_, .inr
        (.inr ⟨final, by simp [acquired, waitsAt, valueWaits], fun closed => absurd closed open'⟩)⟩
      simp [acquired]

theorem unlocked_owner {back : Unlock ι γ} {before : State ι γ}
    (signal : before.signal = state.signal) (waits : back.waits (state.signal party).value = true) :
    OwnerStep state (unlocked before party back) party := by
  cases back with
  | enqueued mode first =>
    cases mode with
    | wait =>
      cases first <;> exact .stays (by simp [unlocked, signal]) (by simp [unlocked, waitsAt])
    | poll waker =>
      exact .stays (by simp [unlocked, signal])
        (by simpa [unlocked, waitsAt, Unlock.waits, modeWaits] using waits)
  | cancelMissing => exact .stays (by simp [unlocked, signal]) (by simp [unlocked, waitsAt])
  | acquired | closed | drained | closing | cancelFound => cases waits

/-- **Every step of a party whose node is given away.** -/
theorem advance_owner (waits : waitsAt (state.pc party) (state.signal party).value = true)
    (stepped : advance width state party = some next) : OwnerStep state next party := by
  cases source : state.pc party <;>
    simp only [advance, source, Option.some.injEq, reduceCtorEq] at stepped <;>
    simp only [source, waitsAt, Bool.false_eq_true] at waits
  case syncPark =>
    unfold syncPark at stepped
    dsimp only at stepped
    split at stepped <;> cases stepped
    rename_i final
    exact finishSync_owner (by rw [source]; rfl) final rfl rfl rfl
  case cancelLock =>
    unfold cancelLock at stepped
    split at stepped <;> cases stepped <;> exact .stays rfl (by simp [waitsAt])
  case cancelWait =>
    unfold cancelWait at stepped
    dsimp only at stepped
    split at stepped <;> cases stepped
    rename_i final
    refine ⟨by rw [release_signal], .inr (.inr ⟨final, release_free (complete_of_none rfl),
      fun closed => ?_⟩)⟩
    rw [if_pos closed]
    exact release_refunds rfl (by rw [source]; rfl)
  all_goals subst stepped
  case unlock back =>
    unfold unlock
    split
    · exact .stays rfl (by simpa [waitsAt] using waits)
    · exact unlocked_owner rfl waits
  case unlockStore back => exact unlocked_owner rfl waits
  case syncSpin =>
    unfold syncSpin
    dsimp only
    split
    · rename_i final
      exact finishSync_owner (by rw [source]; rfl) final rfl rfl rfl
    · exact .stays rfl (by simp [waitsAt])
  case syncSwap =>
    unfold syncSwap
    dsimp only
    split
    · rename_i final
      exact finishSync_owner (by rw [source]; rfl) final (by simp) rfl rfl
    · rename_i unsignalled
      refine ⟨by simp, .inl ⟨by simp [waitsAt], fun final => absurd final unsignalled⟩⟩
  case rearmRegister waker =>
    unfold rearmRegister
    dsimp only
    split <;> exact ⟨by simp, .inl ⟨by simpa [waitsAt] using waits, fun _ => by simp⟩⟩
  case rearmLoad waker =>
    unfold rearmLoad
    dsimp only
    split
    · rename_i final
      exact pollFinal_owner (by rw [source]; rfl) final
    · exact .stays rfl (by simpa [waitsAt] using waits)
  case dropLoad =>
    unfold dropLoad
    split <;> rename_i value <;> rw [value] at waits
    case h_1 => exact .stays rfl (by simp [waitsAt])
    case h_2 =>
      refine ⟨by rw [release_signal], .inr (.inr
        ⟨by rw [value]; rfl, release_free (complete_of_none rfl), fun closed => ?_⟩)⟩
      rw [value] at closed
      cases closed
    case h_3 =>
      refine ⟨by rw [release_signal], .inr (.inr
        ⟨by rw [value]; rfl, release_free (complete_of_none rfl), fun _ => ?_⟩)⟩
      exact release_refunds rfl (by rw [source]; rfl)
    all_goals
      refine ⟨rfl,
        .inr (.inr ⟨by rw [value]; revert waits; decide, by simp [waitsAt], fun closed => ?_⟩)⟩
      rw [value] at closed
      cases closed
  case cancelRemove =>
    unfold cancelRemove
    dsimp only
    split
    · rename_i member
      exact ⟨rfl, .inr (.inl ⟨source, member⟩)⟩
    · exact .stays rfl (by simp [waitsAt, Unlock.waits])

/-- **Every call of a party whose node is given away.** -/
theorem begin_owner {move : Move γ}
    (waits : waitsAt (state.pc party) (state.signal party).value = true)
    (stepped : begin width state party move = some next) : OwnerStep state next party := by
  have source : state.pc party = .future := by
    rcases begin_rests stepped with idle | future
    · rw [idle] at waits
      cases waits
    · exact future
  rw [source] at waits
  cases move <;> simp [begin, beginRequest, source] at stepped
  case poll waker =>
    subst stepped
    unfold poll
    dsimp only
    split
    · rename_i value
      rw [value] at waits
      cases waits
    · rename_i armed
      split
      · exact .stays rfl (by simpa [waitsAt] using waits)
      · rename_i answered
        refine pollFinal_owner (by rw [source]; rfl) ?_
        revert waits armed answered
        cases (state.signal party).value <;> simp [waitsAt, valueWaits, SignalValue.isFinal]
  case drop =>
    subst stepped
    unfold drop
    split <;> rename_i value <;> rw [value] at waits
    case h_1 | h_2 => cases waits
    all_goals exact .stays rfl (by rw [value]; simpa [waitsAt] using waits)

/-! ### What the others do to a node -/

/-- The step writes no node but the party's own. -/
def Apart (state next : State ι γ) (party : ι) : Prop := ∀ other, other ≠ party →
    next.signal other = state.signal other

theorem release_apart {before : State ι γ} {n : ℕ} (apart : Apart state before party) :
    Apart state (release before party n after) party := fun other different => by
  rw [release_signal]
  exact apart other different

theorem acquired_apart {before : State ι γ} (apart : Apart state before party) :
    Apart state (acquired before party mode) party := fun other different => by
  cases mode <;> simpa [acquired, different] using apart other different

theorem refused_apart : Apart state (refused state party mode) party := fun other different => by
  cases mode <;> simp [refused, different]

theorem tryNext_apart {attempt : Attempt} {cur : ℕ} :
    Apart state (tryNext width state party attempt cur) party := by
  have enqueues (node : Signal) (mode : Mode) :
      Apart state (enqueueOrAcquire width (state.setSignal party node) party mode) party :=
        fun other different => by
    unfold enqueueOrAcquire
    split <;> simp [different]
  have refuses (mode : Mode) : Apart state (refused state party mode) party := refused_apart
  unfold tryNext
  split
  · cases attempt with
    | tryAcquire | acquireSync | pollAcquire waker => exact fun _ _ => rfl
    | acquireSyncSlow => exact refuses .wait
    | pollAcquireSlow waker => exact refuses (.poll waker)
  · split
    · cases attempt with
      | tryAcquire | acquireSync | pollAcquire waker => exact fun _ _ => rfl
      | acquireSyncSlow | pollAcquireSlow waker => exact enqueues _ _
    · exact fun _ _ => rfl

theorem finishSync_apart {before : State ι γ} {value : SignalValue}
    (apart : Apart state before party) : Apart state (finishSync before party value) party := by
  unfold finishSync
  split
  · exact acquired_apart apart
  · exact release_apart apart

theorem setSignal_apart {node : Signal} : Apart state (state.setSignal party node) party :=
  fun other different => by
  simp [different]

theorem pollFinal_apart {waker : Waker} {value : SignalValue} :
    Apart state (pollFinal state party waker value) party := by
  unfold pollFinal
  split
  · exact fun _ _ => rfl
  · split
    · exact release_apart setSignal_apart
    · exact acquired_apart fun _ _ => rfl

theorem unlocked_apart {back : Unlock ι γ} {before : State ι γ}
    (signal : before.signal = state.signal) : Apart state (unlocked before party back) party := by
  have same : Apart state before party := fun other _ => by rw [signal]
  cases back with
  | acquired mode => exact acquired_apart same
  | closed mode =>
    intro other different
    rw [← signal]
    exact refused_apart other different
  | enqueued mode first =>
    cases mode with
    | wait => cases first <;> exact same
    | poll waker => exact same
  | drained chain after | closing chain =>
    intro other _
    rw [← signal]
    exact congrFun (congrArg Waiters.signal signalNext_waiters) other
  | cancelFound granted headChanged =>
    unfold unlocked
    dsimp only
    split
    · exact release_apart same
    · split <;> exact same
  | cancelMissing => exact same

/-- **Another party's node keeps its `aux`**, but for what a drain serves it. -/
theorem advance_aux (stepped : advance width state party = some next) {other : ι}
    (different : other ≠ party) :
    (next.signal other).aux = (state.signal other).aux ∨ ∃ after available,
      state.pc party = .drainServe after available ∧
      (next.signal other).aux =
      ((serve state.queue.entries state.signal available).signal other).aux := by
  have apart (leaves : Apart state next party) :
      (next.signal other).aux = (state.signal other).aux := by
    rw [leaves other different]
  cases source : state.pc party <;>
    simp only [advance, source, Option.some.injEq, reduceCtorEq] at stepped
  case drainServe after available =>
    subst stepped
    exact .inr ⟨after, available, rfl, rfl⟩
  all_goals refine .inl ?_
  case drainLock =>
    unfold drainLock at stepped
    split at stepped <;> cases stepped
    · exact apart fun other _ => congrFun (congrArg Waiters.signal finish_waiters) other
    · rfl
  case cancelLock =>
    unfold cancelLock at stepped
    split at stepped <;> cases stepped <;> rfl
  case closeLock =>
    unfold closeLock at stepped
    split at stepped <;> cases stepped <;> rfl
  case enqueueLock =>
    unfold enqueueLock at stepped
    split at stepped <;> cases stepped
    rfl
  case syncPark =>
    unfold syncPark at stepped
    dsimp only at stepped
    split at stepped <;> cases stepped
    exact apart (finishSync_apart fun _ _ => rfl)
  case cancelWait =>
    unfold cancelWait at stepped
    dsimp only at stepped
    split at stepped <;> cases stepped
    exact apart (release_apart fun _ _ => rfl)
  all_goals subst stepped
  case tryLoad => exact apart tryNext_apart
  case tryCas attempt cur =>
    unfold tryCas at apart ⊢
    split
    · rename_i same
      rw [if_pos same] at apart
      refine apart ?_
      unfold tryTaken
      cases attempt <;> exact acquired_apart fun _ _ => rfl
    · rename_i changed
      rw [if_neg changed] at apart
      exact apart tryNext_apart
  case releaseAdd n after =>
    unfold releaseAdd
    dsimp only
    split
    · split
      · rfl
      · exact congrArg Signal.aux (congrFun (congrArg Waiters.signal finish_waiters) other)
    · exact congrArg Signal.aux (congrFun (congrArg Waiters.signal releasePanic_waiters) other)
  case drainCas =>
    unfold drainCas
    split <;> rfl
  case enqueueCas =>
    unfold enqueueCas
    split <;> rfl
  case unlock back =>
    unfold unlock
    split
    · rfl
    · exact congrArg Signal.aux (unlocked_apart rfl other different)
  case unlockStore back => exact congrArg Signal.aux (unlocked_apart rfl other different)
  case signalTake node rest closed after =>
    by_cases same : other = node
    · subst same
      simp [signalTake]
    · simp [signalTake, same]
  case signalPublish node rest closed after =>
    have signal :=
      congrFun (congrArg Waiters.signal (signalNext_waiters : (signalNext (state.setSignal node
      ((state.signal node).setValue (signalValue closed))) party closed after rest).waiters = _))
      other
    show ((signalNext _ party closed after rest).signal other).aux = _
    refine (congrArg Signal.aux signal).trans ?_
    by_cases same : other = node
    · subst same
      simp
    · simp [same]
  case syncSpin =>
    refine apart ?_
    unfold syncSpin
    dsimp only
    split
    · exact finishSync_apart fun _ _ => rfl
    · exact fun _ _ => rfl
  case syncSwap =>
    refine apart ?_
    unfold syncSwap
    dsimp only
    split
    · exact finishSync_apart setSignal_apart
    · exact setSignal_apart
  case rearmRegister =>
    refine apart ?_
    unfold rearmRegister
    dsimp only
    split <;> exact setSignal_apart
  case rearmLoad =>
    refine apart ?_
    unfold rearmLoad
    dsimp only
    split
    · exact pollFinal_apart
    · exact fun _ _ => rfl
  case dropLoad =>
    refine apart ?_
    unfold dropLoad
    split
    case h_2 | h_3 => exact release_apart fun _ _ => rfl
    all_goals exact fun _ _ => rfl
  case cancelRemove =>
    unfold cancelRemove
    dsimp only
    split <;> rfl
  case closeFlag =>
    unfold closeFlag
    dsimp only
    split
    · rfl
    · split <;> rfl
  case forgetLoad =>
    unfold forgetNext
    split <;> rfl
  case forgetCas =>
    unfold forgetCas forgetNext
    split
    · rfl
    · split <;> rfl
  all_goals rfl

end Steps

/-! ### No node was served more than it asked for -/

/-- **The `aux` of a node is what it still misses of its request.** -/
structure Missing (width : PointerWidth) (state : State ι γ) : Prop where
  armed : ∀ party, armedAt (state.pc party) = true →
    (state.signal party).aux = state.requested party
  bound : ∀ party, masked.Waits (state.masked width) party →
    (state.signal party).aux ≤ state.requested party

section Missing

variable {width : PointerWidth} {n : ℕ} {state next : State ι γ} {party : ι}

/-- The enqueuer leaves its node alone until it is linked. -/
theorem armed_signal (armed : armedAt (state.pc party) = true)
    (stepped : advance width state party = some next) : next.signal = state.signal := by
  cases source : state.pc party <;> simp only [source, armedAt, Bool.false_eq_true] at armed <;>
    simp only [advance, source, Option.some.injEq] at stepped
  case enqueueLock =>
    unfold enqueueLock at stepped
    split at stepped <;> cases stepped
    rfl
  all_goals subst stepped
  case enqueueCas =>
    unfold enqueueCas
    split <;> rfl
  all_goals rfl

theorem Linked.armed_unlinked (linked : Linked width state)
    (armed : armedAt (state.pc party) = true) : party ∉ state.queue.entries := by
  intro member
  have waits : masked.Waits (state.masked width) party := (linked.kept.queued member).1
  have given : waitsAt (state.pc party) (state.signal party).value = true :=
    (Bool.and_eq_true_iff.mp waits).2
  revert armed given
  cases state.pc party <;> simp [armedAt, waitsAt]

/-- What another party waits for and was served, before the step. -/
theorem MaskedFrom.waits_other (moves : MaskedFrom width state next party)
    (kept : Masked width state) {other : ι}
    (different : other ≠ party) (waits : masked.Waits (next.masked width) other) :
    masked.Waits (state.masked width) other := by
  obtain ⟨point, moves⟩ := moves
  rcases kept.value_other moves different with same | ⟨before, -⟩
  · rwa [Waits, moves.rest different, same] at waits
  · exact before

theorem advance_missing (missing : Missing width state) (linked : Linked width state)
    (stepped : advance width state party = some next) : Missing width next := by
  have shared := advance_shared stepped
  have moves := advance_masked linked stepped
  have asks (other : ι) : next.requested other = state.requested other := by
    rw [State.requested, shared.request]
  refine ⟨fun other armed => ?_, fun other waits => ?_⟩
  · rw [asks]
    by_cases self : other = party
    · subst self
      have enters : entersAt (next.pc other) = true := by
        revert armed
        cases next.pc other <;> simp [armedAt, entersAt]
      have still (before : armedAt (state.pc other) = true) :
          (next.signal other).aux = state.requested other := by
        rw [armed_signal before stepped]
        exact missing.armed other before
      cases advance_enters stepped enters with
      | admitted mode target small aux => exact aux
      | locks mode source target => exact still (by rw [source]; rfl)
      | flags mode source target => exact still (by rw [source]; rfl)
      | retries mode cur source target => exact still (by rw [source]; rfl)
      | tries attempt target opened vacant enough =>
        rw [target] at armed
        cases armed
      | closes source opened target =>
        rw [target] at armed
        cases armed
      | closing source target =>
        revert target armed
        cases next.pc other <;> simp [closingAt, armedAt]
    · rw [moves.rest self] at armed
      rcases advance_aux stepped self with same | ⟨after, available, -, result⟩
      · rw [same]
        exact missing.armed other armed
      · rw [result, serve_aux_other _ _ _ (linked.armed_unlinked armed)]
        exact missing.armed other armed
  · rw [asks]
    by_cases self : other = party
    · subst self
      obtain ⟨point, moves⟩ := moves
      have there : masked.waits point (valueOf (next.masked width) other) = true := by
        rwa [Waits, moves.self] at waits
      rcases moves.waits_self linked.kept there with before | pushed
      · have given : waitsAt (state.pc other) (state.signal other).value = true :=
          (Bool.and_eq_true_iff.mp before).2
        rw [(advance_owner given stepped).aux]
        exact missing.bound other before
      · have pushed : next.queue = state.queue.push other := pushed
        rcases queueAfter_entries state other (state.pc other) with ⟨mode, source⟩ | fewer
        · have armed : armedAt (state.pc other) = true := by rw [source]; rfl
          rw [armed_signal armed stepped]
          exact (missing.armed other armed).le
        · have shorter := fewer.length_le
          rw [← shared.queue, pushed, WaitQueue.push_entries, List.length_append] at shorter
          exact absurd shorter (by simp)
    · have before := missing.bound other (moves.waits_other linked.kept self waits)
      rcases advance_aux stepped self with same | ⟨after, available, -, result⟩
      · rw [same]
        exact before
      · rw [result]
        exact (serve_aux_le _ _ _ _).trans before

theorem begin_apart {move : Move γ} (stepped : begin width state party move = some next) :
    Apart state next party := by
  cases move <;> simp only [begin, beginRequest] at stepped
  case advance => cases stepped
  case create =>
    split at stepped <;> cases stepped
    exact setSignal_apart
  case poll waker =>
    split at stepped <;> cases stepped
    unfold poll
    dsimp only
    split
    · exact fun _ _ => rfl
    · split
      · exact fun _ _ => rfl
      · exact pollFinal_apart
  case drop =>
    split at stepped <;> cases stepped
    unfold drop
    split <;> exact fun _ _ => rfl
  case addPermits | dropPermit | downgrade =>
    split at stepped <;> cases stepped
    exact release_apart fun _ _ => rfl
  case split =>
    split at stepped
    · split at stepped <;> cases stepped <;> exact fun _ _ => rfl
    · cases stepped
  all_goals
    split at stepped <;> cases stepped
    exact fun _ _ => rfl

theorem begin_missing {move : Move γ} (missing : Missing width state) (linked : Linked width state)
    (stepped : begin width state party move = some next) : Missing width next := by
  have moves := begin_masked stepped
  obtain ⟨others, own⟩ := begin_request stepped
  have apart := begin_apart stepped
  have asks (other : ι) (different : other ≠ party) :
      next.requested other = state.requested other := by
    rw [State.requested, others other different]
  refine ⟨fun other armed => ?_, fun other waits => ?_⟩
  · by_cases self : other = party
    · subst self
      have leaves := begin_leaves stepped
      revert armed leaves
      cases next.pc other <;> simp [armedAt, entersAt]
    · rw [moves.rest self] at armed
      rw [apart other self, asks other self]
      exact missing.armed other armed
  · by_cases self : other = party
    · subst self
      obtain ⟨point, moves⟩ := moves
      have there : masked.waits point (valueOf (next.masked width) other) = true := by
        rwa [Waits, moves.self] at waits
      rcases moves.waits_self linked.kept there with before | pushed
      · have given : waitsAt (state.pc other) (state.signal other).value = true :=
          (Bool.and_eq_true_iff.mp before).2
        have asks : next.requested other = state.requested other := by
          rcases own with same | idle
          · rw [State.requested, same]
          · rw [idle] at given
            cases given
        rw [(begin_owner given stepped).aux, asks]
        exact missing.bound other before
      · have pushed : next.queue = state.queue.push other := pushed
        rw [(begin_untouched stepped).2] at pushed
        have longer := congrArg (fun queue => queue.entries.length) pushed
        simp at longer
    · rw [apart other self, asks other self]
      exact missing.bound other (moves.waits_other linked.kept self waits)

theorem missing_of_reachable {allowed : State ι γ → Label ι γ → State ι γ → Prop}
    (reach : (machine ι γ width n).ReachableBy allowed state) : Missing width state := by
  refine reach.invariant (Missing width) ?_ ?_
  · rintro _ ⟨-, kind, rfl⟩
    exact ⟨(fun _ => never), fun _ _ => Nat.le_refl 0⟩
  · intro state label next before missing stepped _
    unfold machine step at stepped
    dsimp only at stepped
    split at stepped
    · exact advance_missing missing (linked_of_reachable before) stepped
    · exact begin_missing missing (linked_of_reachable before) stepped

end Missing

/-! ### From the pop to the refund -/

section Popped

variable {width : PointerWidth} {state next : State ι γ} {party node : ι} {after : After γ}
  {label : Label ι γ}

/-- The closer keeps a popped node in its chain until it has signalled it. -/
theorem advance_closer (closing : closingAt (state.pc party) = true)
    (chained : node ∈ chainOf (state.pc party)) (stepped : advance width state party = some next) :
    (closingAt (next.pc party) = true ∧ node ∈ chainOf (next.pc party)) ∨
    (next.signal node).value = .closed := by
  have signals {before : State ι γ} {after : After γ} {chain : List ι} (member : node ∈ chain) :
      closingAt ((signalNext before party true after chain).pc party) = true ∧
        node ∈ chainOf ((signalNext before party true after chain).pc party) := by
    cases chain with
    | nil => cases member
    | cons first rest => simpa [signalNext, closingAt, chainOf] using member
  cases source : state.pc party <;>
    simp only [source, closingAt, chainOf, Bool.false_eq_true] at closing chained
  case closeLock | closePop => cases chained
  case unlock back =>
    cases back <;> simp only [Bool.false_eq_true] at closing
    simp only [advance, source, Option.some.injEq] at stepped
    subst stepped
    unfold unlock
    split
    · exact .inl ⟨by simp [closingAt], by simpa [chainOf] using chained⟩
    · exact .inl (signals chained)
  case unlockStore back =>
    cases back <;> simp only [Bool.false_eq_true] at closing
    simp only [advance, source, Option.some.injEq] at stepped
    subst stepped
    exact .inl (signals chained)
  case signalTake first rest closed after =>
    cases closed <;> simp only [Bool.false_eq_true] at closing
    simp only [advance, source, Option.some.injEq] at stepped
    subst stepped
    exact .inl ⟨by simp [signalTake, closingAt], by simpa [signalTake, chainOf] using chained⟩
  case signalPublish first rest closed after =>
    cases closed <;> simp only [Bool.false_eq_true] at closing
    simp only [advance, source, Option.some.injEq] at stepped
    subst stepped
    rcases List.mem_cons.mp chained with rfl | later
    · refine .inr ?_
      have signal : (signalPublish state party node rest true after).signal = _ :=
        congrArg Waiters.signal signalNext_waiters
      rw [signal]
      simp [signalValue]
    · exact .inl (signals later)

section

variable (popped : Popped width state node) (linked : Linked width state)
include popped linked

/-- A popped node is in no queue. -/
theorem Popped.unlinked : node ∉ state.queue.entries := by
  intro member
  rcases popped.signal with closed | ⟨closer, -, chained⟩
  · have unsignalled : (state.signal node).value.isFinal = false := (linked.kept.queued member).2
    rw [closed] at unsignalled
    cases unsignalled
  · have outside : node ∉ state.queue.entries :=
      (linked.kept.popped
        (show node ∈ masked.chain ((state.masked width).pc closer) from chained)).2.2
    exact outside member

/-- Only `SIGNAL_CLOSED` reaches a node the closer has popped. -/
theorem Popped.closed_of_final (final : (state.signal node).value.isFinal = true) :
    (state.signal node).value = .closed := by
  rcases popped.signal with closed | ⟨closer, -, chained⟩
  · exact closed
  · have unsignalled : (state.signal node).value.isFinal = false :=
      (linked.kept.popped
        (show node ∈ masked.chain ((state.masked width).pc closer) from chained)).2.1
    rw [unsignalled] at final
    cases final

/-- What the owner of a popped node does: it waits on, or takes the node back. -/
theorem Popped.own (request : next.request node = state.request node)
    (rest : ∀ other, other ≠ node → next.pc other = state.pc other)
    (owner : OwnerStep state next node) :
    (Popped width next node ∧ (next.signal node).aux = (state.signal node).aux) ∨
      ((state.signal node).value = .closed ∧ Refunds state next node ∧
        ¬Popped width next node) := by
  obtain ⟨fit, given⟩ := Bool.and_eq_true_iff.mp popped.waits
  rcases owner.goes with ⟨waits, same⟩ | ⟨-, member⟩ | ⟨final, taken, refunds⟩
  · refine .inl ⟨⟨Bool.and_eq_true_iff.mpr ⟨?_, waits⟩, ?_⟩, owner.aux⟩
    · show decide ((next.request node).permits ≤ maxPermits width) = true
      rw [request]
      exact fit
    · refine popped.signal.imp (fun closed => ?_) fun ⟨closer, closing, chained⟩ => ?_
      · rw [same (by rw [closed]; rfl)]
        exact closed
      · have different : closer ≠ node := by
          rintro rfl
          exact (owned_of_masked linked.kept).apart closer chained
        exact ⟨closer, by rw [rest closer different]; exact ⟨closing, chained⟩⟩
  · exact absurd member (popped.unlinked linked)
  · have closed := popped.closed_of_final linked final
    refine .inr ⟨closed, refunds closed, fun again => ?_⟩
    have waits : waitsAt (next.pc node) (next.signal node).value = true :=
      (Bool.and_eq_true_iff.mp again.waits).2
    rw [taken] at waits
    cases waits

/-- What the others do to a popped node: the closer signals it. -/
theorem Popped.other (moves : MaskedFrom width state next party) (different : node ≠ party)
    (closer : closingAt (state.pc party) = true → node ∈ chainOf (state.pc party) →
      (closingAt (next.pc party) = true ∧ node ∈ chainOf (next.pc party)) ∨
      (next.signal node).value = .closed) : Popped width next node := by
  have rest (other : ι) (apart : other ≠ party) : next.pc other = state.pc other := moves.rest apart
  obtain ⟨point, moves⟩ := moves
  have waits : masked.Waits (next.masked width) node ∧ ((state.signal node).value.isFinal = true →
      (next.signal node).value = (state.signal node).value) := by
    rcases linked.kept.value_other moves different with same | ⟨-, after, unsignalled, -⟩
    · refine ⟨?_, fun _ => same⟩
      rw [Waits, moves.rest different, same]
      exact popped.waits
    · refine ⟨after, fun final => ?_⟩
      have unsignalled : (state.signal node).value.isFinal = false := unsignalled
      rw [unsignalled] at final
      cases final
  refine ⟨waits.1, ?_⟩
  rcases popped.signal with closed | ⟨signaler, closing, chained⟩
  · rw [waits.2 (by rw [closed]; rfl)]
    exact .inl closed
  · by_cases self : signaler = party
    · subst self
      rcases closer closing chained with still | signalled
      · exact .inr ⟨signaler, still⟩
      · exact .inl signalled
    · exact .inr ⟨signaler, by rw [rest signaler self]; exact ⟨closing, chained⟩⟩

/-- **A popped node stays as it is until its owner takes it back.** -/
theorem Popped.step (stepped : step width state label = some next) :
    (Popped width next node ∧ (next.signal node).aux = (state.signal node).aux ∧
        next.request node = state.request node) ∨
      (label.1 = node ∧ (state.signal node).value = .closed ∧ Refunds state next node ∧
        ¬Popped width next node) := by
  obtain ⟨party, move⟩ := label
  have given := (Bool.and_eq_true_iff.mp popped.waits).2
  unfold Semaphore.step at stepped
  split at stepped
  · have moves := advance_masked linked stepped
    have request : next.request node = state.request node := by
      rw [(advance_shared stepped).request]
    by_cases self : node = party
    · subst self
      refine (popped.own linked request (fun other different => moves.rest different)
        (advance_owner given stepped)).imp (fun still => ⟨still.1, still.2, request⟩)
        fun refund => ⟨rfl, refund⟩
    · refine .inl ⟨popped.other linked moves self fun closing chained => advance_closer closing
        chained stepped, ?_, request⟩
      rcases advance_aux stepped self with same | ⟨after, available, -, result⟩
      · exact same
      · rw [result, serve_aux_other _ _ _ (popped.unlinked linked)]
  · have moves := begin_masked stepped
    obtain ⟨others, own⟩ := begin_request stepped
    by_cases self : node = party
    · subst self
      have request : next.request node = state.request node := by
        rcases own with same | idle
        · exact same
        · have given : waitsAt (state.pc node) (state.signal node).value = true := given
          rw [idle] at given
          cases given
      refine (popped.own linked request (fun other different => moves.rest different)
        (begin_owner given stepped)).imp (fun still => ⟨still.1, still.2, request⟩)
        fun refund => ⟨rfl, refund⟩
    · refine .inl ⟨popped.other linked moves self fun closing => ?_,
        by rw [begin_apart stepped node self], others node self⟩
      rcases begin_rests stepped with source | source <;> rw [source] at closing <;> cases closing

end

end Popped

/-! ### The release of a refund -/

section Returns

variable {width : PointerWidth} {state next : State ι γ} {party : ι} {after : After γ}

/-- **The `fetch_add` of a release** adds once; what follows is the drain and the end of the
call. -/
theorem releaseAdd_pays {n : ℕ} : returningAt ((releaseAdd width state party n after).pc party) =
    some after ∨ Ended state (releaseAdd width state party n after) party after ∨
    (releaseAdd width state party n after).outcome party = some .releaseTooLarge := by
  unfold releaseAdd
  dsimp only
  split
  · split
    · exact .inl (by simp [returningAt])
    · exact .inr (.inl (finish_ended rfl))
  · refine .inr (.inr ?_)
    cases after <;> simp [releasePanic]

theorem signalNext_returns {before : State ι γ} {chain : List ι}
    (outcome : before.outcome = state.outcome) :
    returningAt ((signalNext before party false after chain).pc party) = some after ∨
      Ended state (signalNext before party false after chain) party after := by
  cases chain with
  | nil => exact .inr (finish_ended (by rw [outcome]))
  | cons node rest => exact .inl (by simp [signalNext, returningAt])

/-- **On the way back a release only drains**, and then ends the call. -/
theorem advance_returns (returning : returningAt (state.pc party) = some after)
    (stepped : advance width state party = some next) :
    returningAt (next.pc party) = some after ∨ Ended state next party after := by
  cases source : state.pc party <;>
    simp only [source, returningAt, Option.some.injEq, reduceCtorEq] at returning <;>
    simp only [advance, source, Option.some.injEq] at stepped
  case drainLock =>
    subst returning
    unfold drainLock at stepped
    split at stepped <;> cases stepped
    · exact .inr (finish_ended rfl)
    · exact .inl (by simp [returningAt])
  all_goals subst stepped
  case unlock back =>
    cases back <;> simp only [Option.some.injEq, reduceCtorEq] at returning
    subst returning
    unfold unlock
    split
    · exact .inl (by simp [returningAt])
    · exact signalNext_returns rfl
  case unlockStore back =>
    cases back <;> simp only [Option.some.injEq, reduceCtorEq] at returning
    subst returning
    exact signalNext_returns rfl
  case signalTake node rest closed after =>
    cases closed <;> simp only [Option.some.injEq, reduceCtorEq] at returning
    subst returning
    exact .inl (by simp [signalTake, returningAt])
  case signalPublish node rest closed after =>
    cases closed <;> simp only [Option.some.injEq, reduceCtorEq] at returning
    subst returning
    exact signalNext_returns rfl
  all_goals subst returning
  case drainLoad =>
    refine .inl ?_
    simp only [State.goto, Function.update_self, drainTake]
    split <;> rfl
  case drainCas =>
    refine .inl ?_
    unfold drainCas drainTake
    split
    · simp [returningAt]
    · simp only [State.goto, Function.update_self]
      split <;> rfl
  case drainServe =>
    refine .inl ?_
    simp only [drainServe, State.goto, Function.update_self]
    split <;> rfl
  case drainReturn => exact .inl (by simp [drainReturn, returningAt])

end Returns

/-! ### Closing -/

/-- **Closing a semaphore is final and complete.** -/
structure Closes (width : PointerWidth) (state : State ι γ) : Prop where
  /-- The bit stays, and nobody else comes to close. -/
  final : ∀ {label : Label ι γ} {next : State ι γ}, isClosed state.pool = true →
    step width state label = some next →
    isClosed next.pool = true ∧ ∀ party, closingAt (next.pc party) = true →
      closingAt (state.pc party) = true
  /-- Once the call that set the bit has returned, nothing is linked. -/
  empty : isClosed state.pool = true → (∀ party, closingAt (state.pc party) = false) →
    state.queue.entries = []
  /-- No CAS takes permits from the pool. -/
  pool : ∀ {party : ι} {next : State ι γ}, isClosed state.pool = true →
    acquiresAt (state.pc party) = true →
    step width state (party, .advance) = some next → permits next.pool = permits state.pool
  /-- A node leaves the queue in one of three ways. -/
  leaves : ∀ {label : Label ι γ} {next : State ι γ} {node : ι}, isClosed state.pool = true →
    step width state label = some next → node ∈ state.queue.entries → node ∉ next.queue.entries →
    Leaves state next node label
  /-- What the closer takes from the queue is popped, as it was. -/
  pops : ∀ {closer node : ι} {next : State ι γ}, state.pc closer = .closePop →
    step width state (closer, .advance) = some next → node ∈ state.queue.entries →
    Popped width next node ∧ next.signal node = state.signal node ∧
      next.request node = state.request node
  /-- A popped node keeps what it was served, until its owner takes it back with `SIGNAL_CLOSED` and
  goes on to put back exactly that. -/
  refunds : ∀ {label : Label ι γ} {next : State ι γ} {node : ι}, Popped width state node →
    step width state label = some next →
    (Popped width next node ∧ (next.signal node).aux = (state.signal node).aux ∧
        next.request node = state.request node) ∨
      (label.1 = node ∧ (state.signal node).value = .closed ∧ Refunds state next node ∧
        ¬Popped width next node)
  /-- No more was served than was asked for. -/
  served : ∀ {node : ι}, Popped width state node → (state.signal node).aux ≤ state.requested node
  /-- The release adds its permits to the pool. -/
  pays : ∀ {party : ι} {n : ℕ} {after : After γ} {next : State ι γ}, state.pc party =
    .releaseAdd n after →
    step width state (party, .advance) = some next → next.pool = addPermits width state.pool n ∧
      (returningAt (next.pc party) = some after ∨ Ended state next party after ∨
        next.outcome party = some .releaseTooLarge)
  /-- It adds them once, and its call ends with the report of the closure. -/
  returns : ∀ {party : ι} {after : After γ} {next : State ι γ}, returningAt (state.pc party) =
    some after → step width state (party, .advance) = some next →
    returningAt (next.pc party) = some after ∨ Ended state next party after
  /-- The other parties do not interfere. -/
  others : ∀ {label : Label ι γ} {party : ι} {next : State ι γ}, party ≠ label.1 →
    step width state label = some next → next.pc party = state.pc party

section Closes

variable {width : PointerWidth} {n : ℕ} {state next : State ι γ} {label : Label ι γ}

theorem Linked.closed_step (linked : Linked width state) (closed : isClosed state.pool = true)
    (stepped : step width state label = some next) :
    isClosed next.pool = true ∧ ∀ party, closingAt (next.pc party) = true →
      closingAt (state.pc party) = true := by
  have moves := step_masked linked stepped
  have elsewhere (own : closingAt (next.pc label.1) = true → closingAt (state.pc label.1) = true)
      (party : ι)
      (closing : closingAt (next.pc party) = true) : closingAt (state.pc party) = true := by
    by_cases self : party = label.1
    · rw [self] at closing ⊢
      exact own closing
    · exact moves.rest self ▸ closing
  unfold step at stepped
  split at stepped
  · refine ⟨?_, elsewhere fun closing => ?_⟩
    · rw [(advance_shared stepped).pool]
      rcases poolAfter_isClosed (linked.guards label.1) with same | ⟨-, set⟩
      · exact same.trans closed
      · exact set
    · rcases advance_closing stepped closing with inside | ⟨-, opened⟩
      · exact inside
      · rw [opened] at closed
        cases closed
  · refine ⟨by rw [(begin_untouched stepped).1]; exact closed, elsewhere fun closing => ?_⟩
    have leaves := begin_leaves stepped
    rw [entersAt_of_closing closing] at leaves
    cases leaves

theorem Sealed.empty (sealed : Sealed state) (closed : isClosed state.pool = true)
    (returned : ∀ party, closingAt (state.pc party) = false) : state.queue.entries = [] := by
  rcases sealed.shut closed with ⟨closer, drains⟩ | ⟨empty, -⟩
  · have inside := closingAt_of_drains drains
    rw [returned closer] at inside
    cases inside
  · exact empty

/-- The closer pops every linked node. -/
theorem Linked.pops (linked : Linked width state) {closer node : ι}
    (source : state.pc closer = .closePop)
    (member : node ∈ state.queue.entries) : Popped width (closePop state closer) node := by
  have waits : masked.Waits (state.masked width) node := (linked.kept.queued member).1
  have different : node ≠ closer := by
    rintro rfl
    have given : waitsAt (state.pc node) (state.signal node).value = true :=
      (Bool.and_eq_true_iff.mp waits).2
    rw [source] at given
    cases given
  refine ⟨?_,
    .inr ⟨closer, by simp [closePop, closingAt],
    by simpa [closePop, chainOf, Unlock.chain] using member⟩⟩
  have pc : (closePop state closer).pc node = state.pc node := Function.update_of_ne different _ _
  show (fits width state node && waitsAt ((closePop state closer).pc node)
    (state.signal node).value) = true
  rw [pc]
  exact waits

/-- **Closing is final and complete**, in every run. -/
theorem closing_complete (reach : (machine ι γ width n).Reachable state) : Closes width state := by
  have linked := linked_of_reachable reach
  have sealed := sealed_of_reachable reach
  exact {
    final := linked.closed_step
    empty := sealed.empty
    pool := linked.closed_takes_nothing
    leaves := sealed.leaves linked
    pops := fun {closer node next} source stepped member => by
      simp only [step, advance, source, Option.some.injEq] at stepped
      subst stepped
      exact ⟨linked.pops source member, rfl, rfl⟩
    refunds := fun popped stepped => popped.step linked stepped
    served := fun {node} popped => (missing_of_reachable reach).bound node popped.waits
    pays := fun {party n after next} source stepped => by
      have stepped : advance width state party = some next := stepped
      have shared := advance_shared stepped
      simp only [advance, source, Option.some.injEq] at stepped
      subst stepped
      exact ⟨by rw [shared.pool, source]; rfl, releaseAdd_pays⟩
    returns := advance_returns
    others := fun different stepped => (step_masked linked stepped).rest different }

/-- `b` asks for three permits and was served two, when `a` closes the semaphore. -/
def closedInPart {ι : Type} (a b : ι) : List (Label ι Unit) := List.flatten
  [[(a, .tryAcquire ⟨(), 2⟩), (a, .advance), (a, .advance), (b, .create ⟨(), 3⟩), (b, .poll 0)],
    List.replicate 6 (b, .advance), [(a, .split ⟨(), 2⟩ 1), (a, .dropPermit ⟨(), 1⟩)],
    List.replicate 6 (a, .advance), [(a, .close)], List.replicate 7 (a, .advance)]

/-- The closer has returned, the queue is empty, and `1` has two permits to put back. -/
theorem closing_complete_inPart : ∃ state : State (Fin 2) Unit,
    (machine (Fin 2) Unit .bits64 3).Reachable state ∧ isClosed state.pool = true ∧
    Popped .bits64 state 1 ∧
    state.granted 1 = 2 ∧ state.queue.entries = [] ∧ Closes .bits64 state := by
  obtain ⟨state, reach, ended⟩ := System.exists_reachable_of_run (machine (Fin 2) Unit .bits64 3)
    (fun state => decide (isClosed state.pool = true ∧
    (∀ party, closingAt (state.pc party) = false) ∧
      state.pc 1 = .future ∧ (state.signal 1).value = .closed ∧ state.requested 1 = 3 ∧
      state.granted 1 = 2))
    ⟨by decide, (), rfl⟩ (closedInPart 0 1) (by decide +kernel)
  obtain ⟨closed, returned, source, value, asks, granted⟩ := of_decide_eq_true ended
  have closes := closing_complete reach
  have waits : masked.Waits (state.masked .bits64) 1 := by
    show (fits .bits64 state 1 && waitsAt (state.pc 1) (state.signal 1).value) = true
    rw [fits, asks, source, value]
    decide
  exact ⟨state, reach, closed, ⟨waits, .inl value⟩, granted, closes.empty closed returned, closes⟩

end Closes

end Xutex.Semaphore
