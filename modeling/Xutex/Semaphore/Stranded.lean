/-
**No waiter of a semaphore is stranded.**

Every step keeps the invariant of `Service`, so it holds in every state of every run whose requests
and created permits are at most `MAX_PERMITS`. In a state where nobody runs a call there is no duty
left: the flag says whether nodes are linked, and the front node misses more permits than the pool
has (`front_unservable`).
-/

import Xutex.Semaphore.Service

set_option linter.unusedSectionVars false

namespace Xutex.Semaphore

open Concurrency Discipline

variable {ι γ : Type} [DecidableEq ι] [DecidableEq γ] [Fintype ι] {width : PointerWidth}
  {state next : State ι γ} {party : ι} {n : ℕ}

/-! ### The machine -/

/-- **Every step inside a call keeps the invariant of service.** -/
theorem advance_serviced (serviced : Serviced state) (ledger : Ledger width state)
    (small : state.created ≤ maxPermits width + state.forgotten)
    (stepped : advance width state party = some next) : Serviced next := by
  have waiting := ledger.waiting
  have moves := advance_moves (owned_of_waiting waiting) (ledger.bounded (party, .advance)) stepped
  by_cases drains : ∃ after available, state.pc party = .drainServe after available
  · obtain ⟨after, available, source⟩ := drains
    simp only [advance, source, Option.some.injEq] at stepped
    subst stepped
    exact drainServe_serviced serviced waiting source moves
  have passes := advance_passes ledger small stepped fun after available source =>
    drains ⟨after, available, source⟩
  by_cases quiet : quietAt (state.pc party) = true
  · have free : lockedAt (state.pc party) = false := by
      revert quiet
      cases state.pc party <;> simp [quietAt, lockedAt]
    have duty : dutyAt (state.pc party) = false := by
      revert quiet
      cases state.pc party <;> simp [quietAt, dutyAt]
    exact serviced.aside waiting moves passes free
      (.untouched waiting moves (advance_untouched quiet stepped) free duty)
  have outside (free : lockedAt (state.pc party) = false) (aside : Aside state next party) :
      Serviced next := serviced.aside waiting moves passes free aside
  cases source : state.pc party <;>
    simp only [advance, source, Option.some.injEq, reduceCtorEq] at stepped
  case drainLock => exact outside (by rw [source]; rfl) (drainLock_aside source stepped)
  case enqueueLock => exact outside (by rw [source]; rfl) (enqueueLock_aside source stepped)
  case cancelLock =>
    exact outside (by rw [source]; rfl)
      (lock_aside stepped rfl rfl (by rw [source]; rfl) fun _ => trivial)
  case closeLock =>
    exact outside (by rw [source]; rfl)
      (lock_aside stepped rfl rfl (by rw [source]; rfl) fun _ => trivial)
  case syncPark | cancelWait => simp [source, quietAt] at quiet
  all_goals subst stepped
  case tryCas => exact outside (by rw [source]; rfl) (tryCas_aside ledger source moves)
  case releaseAdd => exact outside (by rw [source]; rfl) (releaseAdd_aside ledger small source)
  case closeFlag => exact outside (by rw [source]; rfl) (closeFlag_aside waiting source moves)
  case forgetCas => exact outside (by rw [source]; rfl) (forgetCas_aside waiting source moves)
  case drainLoad =>
    have linked : state.queue.entries ≠ [] := by
      have point := serviced.points party
      rw [source] at point
      exact point
    exact drainTake_serviced serviced waiting moves passes (by rw [source]; rfl) linked
      (by rw [source]; rfl)
  case drainCas => exact drainCas_serviced serviced waiting source moves passes
  case drainServe after available => exact absurd ⟨after, available, source⟩ drains
  case drainReturn => exact drainReturn_serviced serviced waiting source moves passes
  case enqueueFlag =>
    exact enqueueNext_serviced serviced waiting setQueue_hasQueue setQueue_permits moves passes
      (by rw [source]; rfl) (by rw [source]; rfl) (by rw [source]; rfl)
  case enqueueCas => exact enqueueCas_serviced serviced ledger source moves passes
  case enqueuePush => exact enqueuePush_serviced serviced ledger source moves passes
  case unlock => exact unlock_serviced serviced waiting source moves passes
  case unlockStore => exact unlockStore_serviced serviced waiting source moves passes
  case cancelRemove => exact cancelRemove_serviced serviced waiting source moves passes
  case closePop => exact closePop_serviced waiting source moves
  all_goals simp [source, quietAt] at quiet

/-- Only a party that runs nothing begins a call. -/
theorem begin_source {move : Move γ} (stepped : begin width state party move = some next) :
    lockedAt (state.pc party) = false ∧ dutyAt (state.pc party) = false := by
  have rests (idle : state.pc party = .idle ∨ state.pc party = .future) :
      lockedAt (state.pc party) = false ∧ dutyAt (state.pc party) = false := by
    rcases idle with source | source <;> rw [source] <;> exact ⟨rfl, rfl⟩
  cases move <;> simp only [begin, beginRequest] at stepped
  case advance => cases stepped
  case poll | drop =>
    split at stepped <;> cases stepped
    rename_i source
    exact rests (.inr source)
  case close =>
    split at stepped <;> cases stepped
    rename_i source
    exact rests (.inl source)
  case split =>
    split at stepped
    · rename_i source
      exact rests (.inl source.1)
    · cases stepped
  all_goals
    split at stepped <;> cases stepped
    rename_i source
    exact rests (.inl source.1)

theorem begin_serviced {move : Move γ} (serviced : Serviced state) (ledger : Ledger width state)
    (small : state.created ≤ maxPermits width + state.forgotten)
    (asks : move.asks ≤ maxPermits width)
    (stepped : begin width state party move = some next) : Serviced next := by
  rcases begin_passes ledger small asks stepped with ⟨moves, passes⟩ | ⟨held, forgotten, rfl, -⟩
  · obtain ⟨free, duty⟩ := begin_source stepped
    obtain ⟨pool, queue⟩ := begin_untouched stepped
    exact serviced.aside ledger.waiting moves passes free
      (.take ledger.waiting moves queue (by rw [pool]) (by rw [pool]) free duty)
  · exact ⟨serviced.flagged, serviced.clean, serviced.points, serviced.tail, serviced.head⟩

theorem serviced_start (kind : γ) : Serviced (start n kind : State ι γ) where
  flagged linked := absurd rfl linked
  clean _ flag := by
    rw [show hasQueue (start n kind : State ι γ).pool = false from newPool_hasQueue] at flag
    cases flag
  points _ := trivial
  tail _ member := absurd member List.not_mem_nil
  head _ _ linked := by cases linked

/-- **The invariant of service holds in every state of every modest run.** -/
theorem serviced_of_reachable (reach : ModestRuns width n state) : Serviced state := by
  refine reach.invariant Serviced ?_ ?_
  · rintro _ ⟨-, kind, rfl⟩
    exact serviced_start kind
  · intro state label next before serviced stepped fits
    obtain ⟨ledger, created⟩ := ledger_of_reachable before
    have small : state.created ≤ maxPermits width + state.forgotten :=
      Nat.le_add_right_of_le created
    obtain ⟨asks, -⟩ := of_decide_eq_true fits
    have stepped : step width state label = some next := stepped
    unfold step at stepped
    split at stepped
    · exact advance_serviced serviced ledger small stepped
    · exact begin_serviced serviced ledger small asks stepped

/-! ### Quiet states -/

/-- The party runs no call, or a blocking one that waits for its signal. -/
def restsAt : Pc ι γ → Bool
  | .idle | .future | .syncSpin | .syncSwap | .syncPark => true
  | _ => false

/-- **Nobody runs a call.** Then nobody has popped a node and not signalled it either
(`Quiet.signalled`). -/
def Quiet (state : State ι γ) : Prop := ∀ party, restsAt (state.pc party) = true

instance (state : State ι γ) : Decidable (Quiet state) :=
  inferInstanceAs (Decidable (∀ party, restsAt (state.pc party) = true))

theorem Quiet.signalled (quiet : Quiet state) (party : ι) : chainOf (state.pc party) = [] := by
  have rests := quiet party
  revert rests
  cases state.pc party <;> simp [restsAt, chainOf]

theorem Quiet.unlocked (quiet : Quiet state) (waiting : Waiting state) :
    state.queue.holder = none := by
  cases holder : state.queue.holder with
  | none => rfl
  | some party =>
    have rests := quiet party
    have locked : lockedAt (state.pc party) = true := (waiting.lock party).mpr holder
    revert rests locked
    cases state.pc party <;> simp [restsAt, lockedAt]

/-- **No stranded waiter**: in a quiet state of a modest run the flag is set exactly while nodes are
linked, only the front node may have been served in part, and it misses more permits than the pool
has. -/
theorem front_unservable (reach : ModestRuns width n state) (quiet : Quiet state) :
    (hasQueue state.pool = true ↔ state.queue.entries ≠ []) ∧
      (∀ node ∈ state.queue.entries.tail, (state.signal node).aux = state.requested node) ∧
      (∀ front rest, state.queue.entries = front :: rest →
        permits state.pool < (state.signal front).aux ∧ 0 < state.requested front) := by
  obtain ⟨ledger, -⟩ := ledger_of_reachable reach
  have serviced := serviced_of_reachable reach
  refine ⟨⟨serviced.clean (quiet.unlocked ledger.waiting), serviced.flagged⟩, serviced.tail,
    fun front rest linked => ?_⟩
  have misses : permits state.pool < (state.signal front).aux := by
    rcases serviced.head front rest linked with misses | ⟨party, busy⟩ | ⟨party, busy⟩
    · exact misses
    · have rests := quiet party
      revert rests busy
      cases state.pc party <;> simp [restsAt, dutyAt]
    · have rests := quiet party
      revert rests busy
      cases state.pc party <;> simp [restsAt, servingAt]
  have member : front ∈ state.queue.entries := by simp [linked]
  have bound := (ledger.known front).served (ledger.waiting.queued member).1
  exact ⟨misses, by omega⟩

/-- The waiter that was served two of its three permits, with nobody in a call. -/
theorem front_unservable_servedInPart : ∃ state : State (Fin 2) Unit, ModestRuns .bits64 3 state ∧
    Quiet state ∧ state.queue.entries = [1] ∧ state.requested 1 = 3 ∧ (state.signal 1).aux = 1 ∧
    hasQueue state.pool = true ∧ permits state.pool < (state.signal 1).aux := by
  obtain ⟨state, reach, ended⟩ := System.exists_reachableBy_of_run (machine (Fin 2) Unit .bits64 3)
    (fun _ label next => modest .bits64 label next)
    (fun state => decide (Quiet state ∧ state.queue.entries = [1] ∧ state.requested 1 = 3 ∧
      (state.signal 1).aux = 1)) ⟨by decide, (), rfl⟩ (servedInPart 0 1) (by decide +kernel)
  obtain ⟨quiet, queued, asked, missing⟩ := of_decide_eq_true ended
  obtain ⟨flag, -, front⟩ := front_unservable reach quiet
  exact ⟨state, reach, quiet, queued, asked, missing, flag.mpr (by simp [queued]),
    (front 1 [] queued).1⟩

end Xutex.Semaphore
