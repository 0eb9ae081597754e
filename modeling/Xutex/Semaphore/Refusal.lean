/-
**When `try_acquire` refuses.**

`try_acquire` goes by the queue flag, not by the queue. An enqueuer sets the flag under the tag-lock
before it looks whether it has to wait, and whoever empties the queue clears it when it unlocks; so
while somebody holds the lock the flag may be set with nothing linked.

* `Clean` — when the lock is free the flag is set only over linked nodes; `clean_of_reachable`, in
  every run.
* `Watch` — an observer that looks, in every state of a call of `try_acquire`, whether the pool is
  short or a node is linked, and finds out refusals for which it was never so.
* `refusals_justified` — **there are none in the runs in which `try_acquire` reads the word while
  the lock is free**; `refusal_spurious` is the run in which an enqueuer has the lock.
-/

import Xutex.Concurrency.Observers
import Xutex.Semaphore.Linked

set_option linter.unusedSectionVars false

namespace Xutex.Semaphore

open Concurrency Discipline

variable {ι γ : Type} [DecidableEq ι] [DecidableEq γ]

/-! ### The flag and the queue -/

/-- **The flag goes with the queue**: when the lock is free, and before its holder frees it. -/
structure Clean (state : State ι γ) : Prop where
  free : state.queue.holder = none → hasQueue state.pool = true → state.queue.entries ≠ []
  stored : ∀ party back, state.pc party = .unlockStore back → hasQueue state.pool = false ∧
    state.queue.entries = []

section Clean

variable {width : PointerWidth} {state next : State ι γ} {party : ι} {n : ℕ}

/-- The unlock of an empty queue leads to its last store, and nothing else does. -/
theorem advance_stores (linked : Linked width state)
    (stepped : advance width state party = some next)
    {back : Unlock ι γ} (target : next.pc party = .unlockStore back) :
    state.pc party = .unlock back ∧ state.queue.entries = [] := by
  have kept := (advance_linked linked stepped).kept
  have held : next.queue.holder = some party := by
    refine (kept.lock party).mp ?_
    show lockedAt (next.pc party) = true
    rw [target]
    rfl
  have shared := advance_shared stepped
  by_cases locked : lockedAt (state.pc party) = true
  · cases source : state.pc party <;> simp only [source, lockedAt, Bool.false_eq_true] at locked
    all_goals simp only [advance, source, Option.some.injEq] at stepped
    all_goals subst stepped
    case unlock before =>
      simp only [unlock] at target held
      split at target
      · rename_i empty
        simp only [State.goto, Function.update_self, Pc.unlockStore.injEq] at target
        exact ⟨by rw [target], List.isEmpty_iff.mp empty⟩
      · rename_i filled
        rw [if_neg filled, unlocked_untouched.queue] at held
        cases held
    case unlockStore before =>
      rw [unlocked_untouched.queue] at held
      cases held
    case drainLoad =>
      simp only [State.goto, Function.update_self, drainTake] at target
      split at target <;> cases target
    case drainCas =>
      simp only [drainCas, drainTake] at target
      split at target
      · simp at target
      · simp only [State.goto, Function.update_self] at target
        split at target <;> cases target
    case drainServe =>
      simp only [drainServe, State.goto, Function.update_self] at target
      split at target <;> cases target
    case enqueueFlag =>
      simp only [enqueueFlag, enqueueNext, State.goto, Function.update_self] at target
      split at target
      · cases target
      · split at target <;> cases target
    case enqueueCas =>
      simp only [enqueueCas, enqueueNext] at target
      split at target
      · simp at target
      · simp only [State.goto, Function.update_self] at target
        split at target
        · cases target
        · split at target <;> cases target
    case cancelRemove =>
      simp only [cancelRemove] at target
      split at target <;> simp at target
    case drainReturn => simp [drainReturn] at target
    case enqueuePush => simp [enqueuePush] at target
    case closePop => simp [closePop] at target
  · -- the lock is taken in this step, at one of four points that go on elsewhere
    have unheld : state.queue.holder ≠ some party := fun holder =>
      locked ((linked.kept.lock party).mpr holder)
    rw [shared.queue] at held
    cases source : state.pc party <;> simp only [source, lockedAt, not_true_eq_false] at locked
    case drainLock after =>
      simp only [advance, source, drainLock] at stepped
      split at stepped <;> cases stepped
      · cases after <;> simp [finish] at target
      · simp at target
    case enqueueLock =>
      simp only [advance, source, enqueueLock] at stepped
      split at stepped <;> cases stepped
      simp at target
    case cancelLock =>
      simp only [advance, source, cancelLock] at stepped
      split at stepped <;> cases stepped <;> simp at target
    case closeLock =>
      simp only [advance, source, closeLock] at stepped
      split at stepped <;> cases stepped <;> simp at target
    all_goals
      rw [source] at held
      exact absurd held unheld

/-- Who frees the lock: the unlock of a queue with linked nodes, or its last store. -/
theorem advance_frees (stepped : advance width state party = some next)
    (free : next.queue.holder = none) :
    state.queue.holder = none ∨ (∃ back, state.pc party = .unlock back ∧ state.queue.entries ≠ []) ∨
      ∃ back, state.pc party = .unlockStore back := by
  have shared := advance_shared stepped
  rw [shared.queue] at free
  cases source : state.pc party <;> rw [source] at free
  case drainLock | cancelLock | closeLock =>
    cases holder : state.queue.holder with
    | none => exact .inl rfl
    | some other => simp [queueAfter, lockAfter, WaitQueue.lock, holder] at free
  case unlock back =>
    simp only [queueAfter] at free
    split at free
    · exact .inl free
    · rename_i filled
      exact .inr (.inl ⟨back, rfl, by simpa using filled⟩)
  case unlockStore back => exact .inr (.inr ⟨back, rfl⟩)
  case enqueueLock => cases free
  all_goals exact .inl free

theorem advance_clean (clean : Clean state) (linked : Linked width state)
    (stepped : advance width state party = some next) : Clean next := by
  have shared := advance_shared stepped
  have guard := linked.guards party
  have aside (unlocked : lockedAt (state.pc party) = false) :
      hasQueue next.pool = hasQueue state.pool ∧ next.queue.entries = state.queue.entries := by
    rw [shared.pool, shared.queue]
    exact shared_free guard unlocked
  refine ⟨fun free flag => ?_, fun other back target => ?_⟩
  · rcases advance_frees stepped free with before | ⟨back, source, filled⟩ | ⟨back, source⟩
    · have unlocked : lockedAt (state.pc party) = false := Bool.eq_false_iff.mpr fun locked => by
        have holder : state.queue.holder = some party := (linked.kept.lock party).mp locked
        rw [before] at holder
        cases holder
      obtain ⟨sameFlag, sameEntries⟩ := aside unlocked
      rw [sameEntries]
      exact clean.free before (sameFlag ▸ flag)
    · rw [shared.queue, source, queueAfter, if_neg (by simpa using filled)]
      exact filled
    · have cleared := (clean.stored party back source).1
      rw [shared.pool, source, show poolAfter width state party (.unlockStore back) = state.pool
        from rfl, cleared] at flag
      cases flag
  · by_cases self : other = party
    · subst self
      obtain ⟨source, empty⟩ := advance_stores linked stepped target
      rw [shared.pool, shared.queue, source, poolAfter, queueAfter, if_pos (by simp [empty]),
        if_pos (by simp [empty])]
      exact ⟨clearQueue_hasQueue, empty⟩
    · rw [(advance_masked linked stepped).rest self] at target
      have held : lockedAt (state.pc other) = true := by rw [target]; rfl
      have unlocked : lockedAt (state.pc party) = false := Bool.eq_false_iff.mpr fun locked =>
        self (linked.kept.lock_unique held locked)
      obtain ⟨sameFlag, sameEntries⟩ := aside unlocked
      rw [sameFlag, sameEntries]
      exact clean.stored other back target

theorem begin_clean {move : Move γ} (clean : Clean state) (linked : Linked width state)
    (stepped : begin width state party move = some next) : Clean next := by
  obtain ⟨pool, queue⟩ := begin_untouched stepped
  refine ⟨by rw [pool, queue]; exact clean.free, fun other back target => ?_⟩
  rw [pool, queue]
  by_cases self : other = party
  · subst self
    -- a call begins outside of the lock, and does not take it
    have idle : lockedAt (state.pc other) = false := by
      rcases begin_rests stepped with source | source <;> rw [source] <;> rfl
    have held : next.queue.holder = some other := by
      refine ((begin_linked linked stepped).kept.lock other).mp ?_
      show lockedAt (next.pc other) = true
      rw [target]
      rfl
    rw [queue] at held
    exact absurd ((linked.kept.lock other).mpr held) (Bool.eq_false_iff.mp idle)
  · rw [(begin_masked stepped).rest self] at target
    exact clean.stored other back target

/-- **In every run the flag goes with the queue.** -/
theorem clean_of_reachable {allowed : State ι γ → Label ι γ → State ι γ → Prop}
    (reach : (machine ι γ width n).ReachableBy allowed state) : Clean state := by
  have both : Linked width state ∧ Clean state := by
    refine reach.invariant (fun state => Linked width state ∧ Clean state) ?_ ?_
    · rintro _ ⟨-, kind, rfl⟩
      refine ⟨linked_start kind, fun _ flag => ?_, (by rintro _ _ ⟨⟩)⟩
      rw [show hasQueue (start n kind : State ι γ).pool = false from newPool_hasQueue] at flag
      cases flag
    · rintro state label next - ⟨linked, clean⟩ stepped -
      refine ⟨step_linked linked stepped, ?_⟩
      have stepped : step width state label = some next := stepped
      unfold step at stepped
      split at stepped
      · exact advance_clean clean linked stepped
      · exact begin_clean clean linked stepped
  exact both.2

end Clean

/-! ### Refusals -/

/-- The points of a call of `try_acquire`, which is not part of another call. -/
def tryingAt : Pc ι γ → Bool
  | .tryLoad .tryAcquire | .tryCas .tryAcquire _ => true
  | _ => false

/-- **What excuses a refusal**: the pool is short of what the party asks for, or a node is
linked. -/
def lacking (state : State ι γ) (party : ι) : Bool :=
  decide (permits state.pool < state.requested party ∨ state.queue.entries ≠ [])

/-- What the observer knows: whose refusal would be excused by some state of its call, and whether
some refusal was not. -/
structure Watch (ι : Type) where
  excused : ι → Bool
  spurious : Bool

/-- The step ends a call of `try_acquire` with `NoPermits`. -/
def refuses (state : State ι γ) (label : Label ι γ) (next : State ι γ) : Bool :=
  decide (label.2 = .advance) && tryingAt (state.pc label.1) && !tryingAt (next.pc label.1) &&
    decide (next.outcome label.1 = some (.refused .noPermits))

/-- The step begins a call of `try_acquire`. -/
def tries (label : Label ι γ) (party : ι) : Bool :=
  match label.2 with
  | .tryAcquire _ => decide (label.1 = party)
  | _ => false

/-- What the observer of the refusals writes down. -/
def watching (watch : Watch ι) (state : State ι γ) (label : Label ι γ) (next : State ι γ) :
    Watch ι where
  excused party :=
    (!tries label party && watch.excused party) || (tryingAt (next.pc party) && lacking next party)
  spurious := watch.spurious || (refuses state label next && !watch.excused label.1)

/-- Nothing has been observed. -/
def Watch.new : Watch ι := ⟨fun _ => false, false⟩

section Refusals

variable {width : PointerWidth} {state next : State ι γ} {party : ι} {n : ℕ}

/-- The next step of the party reads the word for `try_acquire`: it is the load, or a CAS that
fails. -/
def readsWord (state : State ι γ) (party : ι) : Bool :=
  match state.pc party with
  | .tryLoad .tryAcquire => true
  | .tryCas .tryAcquire cur => decide (state.pool ≠ cur)
  | _ => false

/-- **`try_acquire` reads the word while nobody holds the lock of the queue.** -/
def unlockedRead (state : State ι γ) (label : Label ι γ) : Bool :=
  !(decide (label.2 = .advance) && readsWord state label.1) || decide (state.queue.holder = none)

/-- The word that a refusal has read: the flag is set, or the permits are too few. -/
theorem tryNext_refuses
    (refused : (tryNext width state party .tryAcquire state.pool).outcome party =
      some (.refused .noPermits))
      (ended : tryingAt ((tryNext width state party .tryAcquire state.pool).pc party) = false) :
    hasQueue state.pool = true ∨ permits state.pool < state.requested party := by
  unfold tryNext at refused ended
  split at refused
  · simp [tryFailed] at refused
  · rename_i opened
    rw [if_neg opened] at ended
    split at refused
    · rename_i none
      simpa using none
    · rename_i some
      rw [if_neg some] at ended
      simp [tryingAt] at ended

theorem refuses_word {label : Label ι γ} (refusal : refuses state label next = true)
    (stepped : step width state label = some next) :
    label.2 = .advance ∧ tryingAt (state.pc label.1) = true ∧ readsWord state label.1 = true ∧
      (hasQueue state.pool = true ∨ permits state.pool < state.requested label.1) := by
  obtain ⟨party, move⟩ := label
  simp only [refuses, Bool.and_eq_true, decide_eq_true_eq, Bool.not_eq_true'] at refusal
  obtain ⟨⟨⟨rfl, trying⟩, ended⟩, refused⟩ := refusal
  refine ⟨rfl, trying, ?_⟩
  have stepped : advance width state party = some next := stepped
  cases source : state.pc party <;> simp only [source, tryingAt, Bool.false_eq_true] at trying
  case tryLoad attempt =>
    cases attempt <;> simp only [Bool.false_eq_true] at trying
    simp only [advance, source, Option.some.injEq] at stepped
    subst stepped
    exact ⟨by simp only [readsWord, source], tryNext_refuses refused ended⟩
  case tryCas attempt cur =>
    cases attempt <;> simp only [Bool.false_eq_true] at trying
    simp only [advance, source, Option.some.injEq, tryCas] at stepped
    split at stepped
    · subst stepped
      simp [tryTaken, acquired] at refused
    · rename_i changed
      subst stepped
      exact ⟨by simpa [readsWord, source] using changed, tryNext_refuses refused ended⟩

/-- **Every refusal is excused**: in the runs in which `try_acquire` reads the word while the lock
of the queue is free, the pool was short or a node was linked in some state of every call that was
refused. -/
theorem refusals_justified {watch : Watch ι}
    (reach : (machine ι γ width n).ObservedBy .new watching
      (fun state label _ => unlockedRead state label = true)
      state watch) : watch.spurious = false := by
  have watched : watch.spurious = false ∧ ∀ party, tryingAt (state.pc party) = true →
      lacking state party = true → watch.excused party = true := by
    refine System.ReachableBy.observed (fun state watch => watch.spurious = false ∧ ∀ party,
      tryingAt (state.pc party) = true → lacking state party = true → watch.excused party = true) ?_
      ?_ reach
    · rintro _ ⟨-, kind, rfl⟩
      exact ⟨rfl, (fun _ => never)⟩
    · rintro state watch label next before ⟨quiet, excused⟩ stepped unlocked
      refine ⟨?_, fun party trying lacks => by simp [watching, trying, lacks]⟩
      simp only [watching, quiet, Bool.false_or, Bool.and_eq_false_iff, Bool.not_eq_false']
      by_cases refusal : refuses state label next = true
      · obtain ⟨advancing, trying, reads, word⟩ := refuses_word refusal stepped
        refine .inr (excused label.1 trying (decide_eq_true ?_))
        rcases word with flag | short
        · have free : state.queue.holder = none := by
            simpa [unlockedRead, reads, advancing] using unlocked
          exact .inr ((clean_of_reachable before).free free flag)
        · exact .inl short
      · exact .inl (Bool.eq_false_iff.mpr refusal)
  exact watched.1

/-- The only permit is taken, and a second `try_acquire` is refused. -/
def takenTwice {ι : Type} (a b : ι) : List (Label ι Unit) :=
  [(a, .tryAcquire ⟨(), 1⟩), (a, .advance), (a, .advance), (b, .tryAcquire ⟨(), 1⟩), (b, .advance)]

theorem refusals_justified_takenTwice : ∃ (state : State (Fin 2) Unit) (watch : Watch (Fin 2)),
    (machine (Fin 2) Unit .bits64 1).ObservedBy .new watching
    (fun state label _ => unlockedRead state label = true)
      state watch ∧ state.outcome 1 = some (.refused .noPermits) ∧ watch.spurious = false := by
  obtain ⟨state, watch, reach, ended⟩ :=
    System.exists_observedBy_of_run (machine (Fin 2) Unit .bits64 1) .new watching
    (fun state label _ => unlockedRead state label)
    (fun state _ => decide (state.outcome 1 = some (.refused .noPermits))) ⟨by decide, (), rfl⟩
      (takenTwice 0 1)
    (by decide +kernel)
  exact ⟨state, watch, reach, of_decide_eq_true ended, refusals_justified reach⟩

/-- Both permits are taken; a thread that asks for one finds none, both come back, and the thread
takes the lock of the queue and sets the flag. -/
def flagAlone {ι : Type} (a b c : ι) : List (Label ι Unit) :=
  [(a, .tryAcquire ⟨(), 2⟩), (a, .advance), (a, .advance), (b, .acquire ⟨(), 1⟩), (b, .advance),
    (b, .advance), (a, .dropPermit ⟨(), 2⟩), (a, .advance), (b, .advance), (b, .advance),
    (c, .tryAcquire ⟨(), 1⟩), (c, .advance)]

/-- **A refusal without excuse**: two permits are in the pool and no node is linked, all through the
call. -/
theorem refusal_spurious : ∃ (state : State (Fin 3) Unit) (watch : Watch (Fin 3)),
    (machine (Fin 3) Unit .bits64 2).ObservedBy .new watching (fun _ _ _ => True) state watch ∧
      state.outcome 2 = some (.refused .noPermits) ∧ watch.spurious = true ∧
        permits state.pool = 2 ∧
      state.queue.entries = [] ∧ isClosed state.pool = false := by
  obtain ⟨state, watch, reach, ended⟩ :=
    System.exists_observed_of_run (machine (Fin 3) Unit .bits64 2) .new watching
    (fun state watch => decide (state.outcome 2 = some (.refused .noPermits) ∧
      watch.spurious = true ∧
      permits state.pool = 2 ∧ state.queue.entries = [] ∧ isClosed state.pool = false))
      ⟨by decide, (), rfl⟩ (flagAlone 0 1 2)
    (by decide +kernel)
  exact ⟨state, watch, reach, of_decide_eq_true ended⟩

end Refusals

end Xutex.Semaphore
