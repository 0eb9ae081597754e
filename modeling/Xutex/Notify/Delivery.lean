/-
**Whom `notify_one` wakes.**

`notify_one` pops the front waiter whatever its generation is. The waiter is one that no broadcast
has released exactly when no broadcast that came after its capture still waits for the tag-lock
(`popped_current`); without that condition a notification is spent on a waiter that a broadcast
releases anyway, while a later waiter stays parked and no permit is stored (`popped_released`).
-/

import Xutex.Notify.Generations

set_option linter.unusedSectionVars false

namespace Xutex.Notify

open Concurrency Discipline

variable {ι : Type} [DecidableEq ι] {width : PointerWidth} {state next : State ι} {party : ι}

/-! ### The machine -/

/-- **Every step inside a call keeps the invariant of generations.** -/
theorem advance_generations (kept : Generations width state)
    (bound : next.broadcasts < generations width)
    (stepped : advance width state party = some next) : Generations width next := by
  have waiting := kept.waiting
  have moves := advance_moves waiting stepped
  have frame := advance_frame stepped
  by_cases quiet : quietAt (state.pc party) = true
  · have free : lockedAt (state.pc party) = false := by
      revert quiet
      cases state.pc party <;> simp [quietAt, lockedAt]
    have covers (gen : ℕ) : coversAt gen (state.pc party) = false := by
      revert quiet
      cases state.pc party <;> simp [quietAt, coversAt]
    exact kept.aside moves frame
      (.untouched waiting moves (advance_untouched quiet stepped) free covers) bound
  cases source : state.pc party <;>
    simp only [advance, source, Option.some.injEq, reduceCtorEq] at stepped
  case enqueueLock => exact kept.aside moves frame (enqueueLock_aside source stepped) bound
  case broadcastLock => exact kept.aside moves frame (broadcastLock_aside kept source stepped) bound
  case notifyLock | cancelLock =>
    refine kept.aside moves frame (lock_aside stepped rfl (fun gen => ?_) trivial fun _ => trivial)
      bound
    rw [source]
    rfl
  case waitPark | cancelWait => simp [source, quietAt] at quiet
  all_goals subst stepped
  case tryCas => exact kept.aside moves frame (tryCas_aside kept source moves) bound
  case notifyCas => exact kept.aside moves frame (notifyCas_aside waiting source moves) bound
  case notifySlowCas =>
    exact kept.aside moves frame (notifySlowCas_aside waiting source moves) bound
  case broadcastAdd => exact kept.aside moves frame (broadcastAdd_aside kept source bound) bound
  case enqueueFlag =>
    exact enqueueNext_generations kept setQueue_hasQueue setQueue_generation moves
      (by rw [source]; rfl) fun gen => by rw [source]; rfl
  case enqueueCas => exact enqueueCas_generations kept source moves
  case enqueuePush => exact enqueuePush_generations kept source moves
  case notifyPop => exact notifyPop_generations kept source moves
  case broadcastLoad => exact broadcastLoad_generations kept source moves
  case broadcastDrain => exact broadcastDrain_generations kept source moves
  case unlock => exact unlock_generations kept source moves
  case unlockStore =>
    exact unlocked_generations kept (by rw [source]; rfl) (fun gen => by rw [source]; rfl) moves
  case cancelRemove => exact cancelRemove_generations kept source moves
  all_goals simp [source, quietAt] at quiet

/-- Only a party that runs nothing begins a call. -/
theorem begin_source {move : Move} (stepped : begin state party move = some next) :
    state.pc party = .idle ∨ state.pc party = .future := by
  cases move <;> simp only [begin] at stepped
  case advance => cases stepped
  case poll | drop =>
    split at stepped <;> cases stepped
    exact .inr ‹_›
  all_goals
    split at stepped <;> cases stepped
    exact .inl ‹_›

theorem begin_generations {move : Move} (kept : Generations width state)
    (bound : next.broadcasts < generations width) (stepped : begin state party move = some next) :
    Generations width next := by
  have moves := begin_moves stepped
  have free : lockedAt (state.pc party) = false := by
    rcases begin_source stepped with source | source <;> rw [source] <;> rfl
  have covers (gen : ℕ) : coversAt gen (state.pc party) = false := by
    rcases begin_source stepped with source | source <;> rw [source] <;> rfl
  exact kept.aside moves (begin_frame stepped)
    (.untouched kept.waiting moves (begin_untouched stepped) free covers) bound

theorem generations_start : Generations width (start : State ι) where
  waiting := Kept.start rfl fun _ => ⟨rfl, rfl, rfl, rfl⟩
  live := by
    show 0 >>> 3 = 0
    rfl
  bound := by
    show 0 < 2 ^ (width.bits - 3)
    exact Nat.two_pow_pos _
  flagged linked := absurd rfl linked
  stamped _ member := absurd member List.not_mem_nil
  ordered := List.Pairwise.nil
  present _ member := absurd member List.not_mem_nil
  covered _ member := absurd member List.not_mem_nil
  points _ := trivial

/-- The runs with fewer broadcasts than there are generations. -/
abbrev UnwrappedRuns (width : PointerWidth) (state : State ι) : Prop :=
  (machine ι width).ReachableBy (fun _ _ next => next.broadcasts < generations width) state

/-- **The invariant of generations holds in every state of every such run.** -/
theorem generations_of_reachable (reach : UnwrappedRuns width state) : Generations width state := by
  refine reach.invariant (Generations width) ?_ ?_
  · rintro _ rfl
    exact generations_start
  · intro state label next _ kept stepped bound
    have stepped : step width state label = some next := stepped
    unfold step at stepped
    split at stepped
    · exact advance_generations kept bound stepped
    · exact begin_generations kept bound stepped

/-! ### The end of a call of `notify_one` -/

/-- The party runs `notify_one`. -/
def notifiesAt : Pc ι → Bool
  | .notifyLoad _ | .notifyCas _ _ | .notifySlow _ => true
  | .notifyLock _ | .notifyPop _ | .notifySlowCas _ _ => true
  | .unlock (.popped _ _) | .unlockStore (.popped _ _) => true
  | .signalTake _ _ all | .signalPublish _ _ all => !all
  | _ => false

theorem notifyNext_ends {passed : Bool}
    (ended : notifiesAt ((notifyNext state party passed state.word).pc party) = false) :
    hasPermit (notifyNext state party passed state.word).word = true := by
  revert ended
  unfold notifyNext
  split
  · simp [notifiesAt]
  · split
    · rename_i stored
      exact fun _ => stored
    · simp [notifiesAt]

/-- **A call of `notify_one` ends with a permit stored, or with the signal to the waiter it
popped.** -/
theorem notify_ends (stepped : advance width state party = some next)
    (notifies : notifiesAt (state.pc party) = true) (ended : notifiesAt (next.pc party) = false) :
    hasPermit next.word = true ∨ ∃ node, state.pc party = .signalPublish node [] false := by
  cases source : state.pc party <;>
    simp only [notifiesAt, source, Bool.false_eq_true] at notifies <;>
    simp only [advance, source, Option.some.injEq] at stepped
  case notifyLock passed =>
    unfold notifyLock at stepped
    split at stepped <;> cases stepped <;> simp [notifiesAt] at ended
  all_goals subst stepped
  case notifyLoad passed =>
    revert ended
    unfold notifyLoad
    split
    · simp [notifiesAt]
    · split
      · rename_i stored
        exact fun _ => .inl stored
      · simp [notifiesAt]
  case notifyCas passed cur =>
    revert ended
    unfold notifyCas
    split
    · exact fun _ => .inl setPermit_hasPermit
    · simp [notifiesAt]
  case notifySlow => exact .inl (notifyNext_ends ended)
  case notifyPop =>
    revert ended
    unfold notifyPop
    split <;> simp [notifiesAt]
  case notifySlowCas passed cur =>
    revert ended
    unfold notifySlowCas
    split
    · exact fun _ => .inl setPermit_hasPermit
    · exact fun ended => .inl (notifyNext_ends ended)
  case unlock back =>
    cases back <;> simp only [Bool.false_eq_true] at notifies
    rename_i passed node
    revert ended
    unfold unlock
    split
    · simp [notifiesAt]
    · cases node <;> simp [unlocked, notifiesAt]
  case unlockStore back =>
    cases back <;> simp only [Bool.false_eq_true] at notifies
    rename_i passed node
    cases node <;> simp [unlocked, notifiesAt] at ended
  case signalTake node rest all =>
    simp [signalTake, notifiesAt] at ended notifies
    simp [notifies] at ended
  case signalPublish node rest all =>
    obtain rfl : all = false := by simpa using notifies
    cases rest with
    | nil => exact .inr ⟨node, rfl⟩
    | cons first others => simp [signalPublish, signalNext, notifiesAt] at ended

/-! ### Whom a pop takes -/

/-- The call of `notify_waiters` found the generation `gen` or a later one and waits for the
tag-lock. -/
def pendingAt (gen : ℕ) : Pc ι → Bool
  | .broadcastLock prev => decide (gen ≤ generation prev)
  | _ => false

/-- **The waiter that `notify_one` pops is of the current generation** exactly when no broadcast
that came after its capture waits for the tag-lock; and a call that pops none leaves a permit. -/
theorem popped_current (reach : UnwrappedRuns width state) :
    (∀ party passed front rest, state.pc party = .notifyPop passed →
      state.queue.entries = front :: rest →
        (state.captured front = generation state.word ↔
          ∀ other, pendingAt (state.captured front) (state.pc other) = false)) ∧
    (∀ party next, step width state (party, .advance) = some next →
      notifiesAt (state.pc party) = true → notifiesAt (next.pc party) = false →
        hasPermit next.word = true ∨ ∃ node, state.pc party = .signalPublish node [] false) := by
  have kept := generations_of_reachable reach
  refine ⟨fun party passed front rest source linked => ?_, fun party next => notify_ends⟩
  have member : front ∈ state.queue.entries := by simp [linked]
  have stamp := kept.stamped front member
  constructor
  · intro current other
    have point := kept.points other
    cases pending : state.pc other <;> first | rfl | skip
    rename_i prev
    rw [pending] at point
    have later : generation prev < generation state.word := point
    exact decide_eq_false (by omega)
  · intro none
    have present := kept.present front member
    by_contra old
    have older : (state.signal front).aux < generation state.word := by omega
    obtain ⟨other, covers⟩ := kept.covered front member older
    have taken : lockedAt (state.pc party) = true := by rw [source]; rfl
    have waits := none other
    rw [stamp] at covers
    -- a broadcast past the lock would hold it, but the popping call does
    cases pending : state.pc other <;> rw [pending] at covers <;> first | cases covers | skip
    case broadcastLock prev =>
      rw [pending] at waits
      exact Bool.noConfusion (waits.symm.trans covers)
    case broadcastLoad | broadcastDrain =>
      have locked : lockedAt (state.pc other) = true := by rw [pending]; rfl
      have same := kept.waiting.lock_unique locked taken
      rw [same, source] at pending
      cases pending

/-- `a` waits; a broadcast has advanced the generation and not got the lock; `b` waits in the new
generation; `d` is about to pop. -/
def popsReleased {ι : Type} (a b c d : ι) : List (Label ι) :=
  List.flatten [[(a, .create), (a, .poll 0)], List.replicate 6 (a, .advance),
    [(c, .notifyWaiters), (c, .advance), (b, .create), (b, .poll 1)],
    List.replicate 6 (b, .advance), [(d, .notifyOne), (d, .advance), (d, .advance), (d, .advance)]]

/-- The call of `notify_one` and the broadcast come to their ends. -/
def bothEnd {ι : Type} (c d : ι) :
    List (Label ι) := List.replicate 4 (d, .advance) ++ List.replicate 4 (c, .advance)

/-- A broadcast without anybody in `notify_one` leaves the pop to a waiter of the new generation. -/
theorem popped_current_waiter : ∃ state : State (Fin 4), UnwrappedRuns .bits64 state ∧
    state.pc 3 = .notifyPop false ∧ state.queue.entries = [1] ∧
    state.captured 1 = generation state.word ∧ generation state.word = 1 := by
  obtain ⟨state, reach, ended⟩ := System.exists_reachableBy_of_run (machine (Fin 4) .bits64)
    (fun _ _ next => decide (next.broadcasts < generations .bits64))
    (fun state => decide (state.pc 3 = .notifyPop false ∧ state.queue.entries = [1] ∧
      generation state.word = 1 ∧ ∀ other, pendingAt (state.captured 1) (state.pc other) = false))
      rfl
    (List.flatten [[(0, .create), (0, .poll 0)], List.replicate 6 (0, .advance),
      [(2, .notifyWaiters), (2, .advance)], [(1, .create), (1, .poll 1)],
      List.replicate 6 (1, .advance), List.replicate 6 (2, .advance),
      [(3, .notifyOne), (3, .advance), (3, .advance), (3, .advance)]]) (by decide +kernel)
  obtain ⟨pops, linked, live, none⟩ := of_decide_eq_true ended
  have unwrapped : UnwrappedRuns .bits64 state := reach.mono fun _ _ _ => of_decide_eq_true
  exact ⟨state, unwrapped, pops, linked,
    ((popped_current unwrapped).1 3 false 1 [] pops linked).mpr none, live⟩

/-- **A notification spent on a waiter that a broadcast releases**: the popped waiter is of an older
generation, the later waiter stays parked, and no permit is stored. -/
theorem popped_released : ∃ state last : State (Fin 4), (machine (Fin 4) .bits64).Reachable state ∧
    state.pc 3 = .notifyPop false ∧ state.queue.entries = [0, 1] ∧
    state.captured 0 ≠ generation state.word ∧ state.captured 1 = generation state.word ∧
    (machine (Fin 4) .bits64).run (fun _ _ _ => true) state (bothEnd 2 3) = some last ∧
    last.pc 3 = .idle ∧ last.pc 2 = .idle ∧ (last.signal 0).value = .signaled ∧
    last.queue.entries = [1] ∧ (last.signal 1).value = .initWaiting ∧
    last.captured 1 = generation last.word ∧ hasPermit last.word = false := by
  obtain ⟨state, reach, tested⟩ := System.exists_reachable_of_run (machine (Fin 4) .bits64)
    (fun state => decide (state.pc 3 = .notifyPop false ∧ state.queue.entries = [0, 1] ∧
        state.captured 0 ≠ generation state.word ∧ state.captured 1 = generation state.word) &&
      ((machine (Fin 4) .bits64).run (fun _ _ _ => true) state (bothEnd 2 3)).any fun last :
      State (Fin 4) =>
        decide (last.pc 3 = .idle ∧ last.pc 2 = .idle ∧ (last.signal 0).value = .signaled ∧
          last.queue.entries = [1] ∧ (last.signal 1).value = .initWaiting ∧
          last.captured 1 = generation last.word ∧ hasPermit last.word = false))
    rfl (popsReleased 0 1 2 3) (by decide +kernel)
  obtain ⟨before, after⟩ := Bool.and_eq_true_iff.mp tested
  obtain ⟨last, ran, ended⟩ := (Option.any_eq_true _ _).mp after
  obtain ⟨pops, linked, old, current⟩ := of_decide_eq_true before
  exact ⟨state, last, reach, pops, linked, old, current, ran, of_decide_eq_true ended⟩

end Xutex.Notify
