/-
**The queue of the semaphore in every run, panics included.**

A poll on a request above `MAX_PERMITS` panics after it has marked its node as waiting, and the runs
with such a panic leave the discipline of `Waiting`. They leave it only there: such a request never
passes the assertion of `enqueue_or_acquire`, so the marked node is linked nowhere and nobody
signals it. `masked` is the discipline in which the node of a request that does not pass the
assertion is never given away; every step of every run is a move of it.

* `Linked` — **the invariant of every run**: the masked discipline, the queue flag over every linked
  node, and what the parties know at the guarded points. A party at the CAS of `try_acquire` has
  read a word without the flag; an enqueuer at its CAS holds the lock of an empty queue.
* `linked_of_reachable` — it holds in every reachable state.
-/

import Xutex.Semaphore.Frames

set_option linter.unusedSectionVars false

namespace Xutex.Semaphore

open Concurrency Discipline

variable {ι γ : Type} [DecidableEq ι] [DecidableEq γ]

/-! ### The masked discipline -/

/-- The request of the party passes the assertion of `enqueue_or_acquire`. -/
def fits (width : PointerWidth) (state : State ι γ) (party : ι) : Bool :=
  decide (state.requested party ≤ maxPermits width)

/-- **The discipline of every run**: program points with whether the request passes the
assertion. -/
def masked : Discipline ι (Pc ι γ × Bool) where
  chain point := chainOf point.1
  waits point value := point.2 && waitsAt point.1 value
  locked point := lockedAt point.1
  own point := ownValue point.1
  signals := (discipline : Discipline ι (Pc ι γ)).signals
  signalsFinal := (discipline : Discipline ι (Pc ι γ)).signalsFinal
  signalledWaits {point value signal} waits kind := by
    simp only [Bool.and_eq_true] at waits ⊢
    exact ⟨waits.1, (discipline : Discipline ι (Pc ι γ)).signalledWaits waits.2 kind⟩
  signalerFree {point} value busy := by
    have free : waitsAt point.1 value = false :=
      (discipline : Discipline ι (Pc ι γ)).signalerFree value busy
    rw [free, Bool.and_false]
  ownFree {point value} other own := by
    have free : waitsAt point.1 other = false :=
      (discipline : Discipline ι (Pc ι γ)).ownFree other own
    rw [free, Bool.and_false]

/-- The waiters of the masked discipline. -/
def State.masked (width : PointerWidth) (state : State ι γ) : Waiters ι (Pc ι γ × Bool) :=
  ⟨state.queue, state.signal, fun party => (state.pc party, fits width state party)⟩

/-- The masked discipline is kept. -/
abbrev Masked (width : PointerWidth) (state : State ι γ) : Prop := masked.Kept (state.masked width)

section Masked

variable {width : PointerWidth} {state next : State ι γ} {party : ι} {pc pc' : Pc ι γ}

theorem owned_of_masked (kept : Masked width state) : Owned state where
  owned party value := kept.owned party value
  apart party member := by
    have chained : party ∈ masked.chain ((state.masked width).pc party) := member
    have waits := (kept.popped chained).1
    rw [Waits, masked.signalerFree _ (List.ne_nil_of_mem chained)] at waits
    cases waits

/-- What a move leaves undisturbed, it leaves undisturbed behind the mask. -/
theorem undisturbed_masked {fit fit' : Bool}
    (asked : fit' = fit ∨ waitsAt pc (state.signal party).value = false)
    (quiet : discipline.Undisturbed state.waiters next.waiters party pc pc') :
    masked.Undisturbed (state.masked width) (next.masked width) party (pc, fit) (pc', fit') where
  chain := quiet.chain
  values := quiet.values
  waits := by
    have same : waitsAt pc' (next.signal party).value = waitsAt pc (state.signal party).value :=
      quiet.waits
    show (fit' && waitsAt pc' (next.signal party).value) =
      (fit && waitsAt pc (state.signal party).value)
    rcases asked with rfl | free
    · rw [same]
    · rw [same, free, Bool.and_false, Bool.and_false]
  final waits := quiet.final (Bool.and_eq_true_iff.mp waits).2

/-- **A move is a move behind the mask**, when only a request that passes the assertion is
linked. -/
theorem moves_masked (moves : discipline.Moves state.waiters next.waiters party pc pc')
    (others : ∀ other, other ≠ party → next.request other = state.request other)
    (asked : next.request party = state.request party ∨
      waitsAt pc (state.signal party).value = false)
    (links : next.queue = state.queue.push party → fits width next party = true) :
    masked.Moves (state.masked width) (next.masked width) party (pc, fits width state party)
      (pc', fits width next party) := by
  have asked : fits width next party = fits width state party ∨
      waitsAt pc (state.signal party).value = false :=
    asked.imp (fun same => by rw [fits, State.requested, same, fits]) id
  have points : (next.masked width).pc =
      Function.update (state.masked width).pc party (pc', fits width next party) := by
    funext other
    have target : next.pc = Function.update state.pc party pc' := moves.target
    by_cases self : other = party
    · subst self
      simp [State.masked, target]
    · have same : fits width next other = fits width state other := by
        rw [fits, State.requested, others other self, fits]
      simp [State.masked, target, self, same]
  refine ⟨congrArg (·, fits width state party) moves.source, points, moves.owned, ?_⟩
  cases moves.effect with
  | own queue locked quiet => exact .own queue locked (undisturbed_masked asked quiet)
  | acquire free queue locked quiet =>
    exact .acquire free queue locked (undisturbed_masked asked quiet)
  | release queue held locked quiet =>
    exact .release queue held locked (undisturbed_masked asked quiet)
  | push queue locked chain values fresh waits unsignalled =>
    refine .push queue locked chain values ?_ ?_ unsignalled
    · exact Bool.and_eq_false_imp.mpr fun _ => fresh
    · exact Bool.and_eq_true_iff.mpr ⟨links queue, waits⟩
  | pop taken rest front queue locked chain values waits =>
    refine .pop taken rest front queue locked chain values ?_
    have same : waitsAt pc' (state.signal party).value = waitsAt pc (state.signal party).value :=
      waits
    show (fits width next party && waitsAt pc' (state.signal party).value) =
      (fits width state party && waitsAt pc (state.signal party).value)
    rcases asked with fit | free
    · rw [same, fit]
    · rw [same, free, Bool.and_false, Bool.and_false]
  | remove member queue locked chain values gone =>
    exact .remove member queue locked chain values (Bool.and_eq_false_imp.mpr fun _ => gone)
  | publish node signal kind queue locked chain value values free =>
    exact .publish node signal kind queue locked chain value values
      (Bool.and_eq_false_imp.mpr fun _ => free)
  | consume queue locked chain values waited final gone =>
    cases fit : fits width state party with
    | true =>
      exact .consume queue locked chain values (Bool.and_eq_true_iff.mpr ⟨rfl, waited⟩) final
        (Bool.and_eq_false_imp.mpr fun _ => gone)
    | false =>
      -- behind the mask the node was never given away
      refine .own queue locked ⟨chain, values, ?_, fun waits => ?_⟩
      · exact Bool.and_eq_false_imp.mpr fun _ => gone
      · have never : false = true := waits
        cases never

/-- The assertion of `enqueue_or_acquire` fails in a poll. -/
theorem tryNext_panics (waker : Waker) (refuses : ¬Admits width state party) :
    fits width state party = false ∧ tryNext width state party (.pollAcquireSlow waker) state.pool =
      ((state.setSignal party ((((state.signal party).setValue .initWaiting).register waker).setAux
        (state.requested party))).report party .requestTooLarge).goto party .future := by
  simp only [Admits, not_or, not_and, Nat.not_le] at refuses
  obtain ⟨large, opened, few⟩ := refuses
  have missing : (hasQueue state.pool || decide (permits state.pool < state.requested party)) =
      true := by
    cases flag : hasQueue state.pool with
    | true => rfl
    | false => simpa [flag] using few flag
  have exceeds :
      ¬(state.setSignal party ((((state.signal party).setValue .initWaiting).register waker).setAux
      (state.requested party))).requested party ≤ maxPermits width := Nat.not_le.mpr large
  refine ⟨decide_eq_false (Nat.not_le.mpr large), ?_⟩
  rw [tryNext, if_neg opened, if_pos missing, tryFailed, enqueueOrAcquire, if_neg exceeds]
  rfl

/-- **The panic of a poll**: the request is too large, and only the own node is written. -/
theorem advance_panics (large : bounded width state (party, .advance) = false)
    (stepped : advance width state party = some next) :
    fits width state party = false ∧ Plain (state.pc party) ∧
      ∃ node, next.waiters = ⟨state.queue, Function.update state.signal party node,
        Function.update state.pc party .future⟩ := by
  cases source : state.pc party <;> simp only [bounded, source, reduceCtorEq] at large
  case tryLoad attempt =>
    cases attempt <;> simp only [reduceCtorEq] at large
    rename_i waker
    obtain ⟨exceeds, result⟩ := tryNext_panics waker (of_decide_eq_false large)
    simp only [advance, source, Option.some.injEq, result] at stepped
    subst stepped
    exact ⟨exceeds, ⟨rfl, rfl, fun _ => rfl⟩, _, rfl⟩
  case tryCas attempt cur =>
    cases attempt <;> simp only [reduceCtorEq] at large
    rename_i waker
    have refuses := of_decide_eq_false large
    rw [not_or] at refuses
    obtain ⟨exceeds, result⟩ := tryNext_panics waker refuses.2
    simp only [advance, source, Option.some.injEq, tryCas, if_neg refuses.1, result] at stepped
    subst stepped
    exact ⟨exceeds, ⟨rfl, rfl, fun _ => rfl⟩, _, rfl⟩

end Masked

/-! ### The shared words under the lock -/

section Shared

variable {width : PointerWidth} {state next : State ι γ} {party : ι} {pc : Pc ι γ}

/-- What a party knows at a guarded point. -/
def GuardAt (width : PointerWidth) (state : State ι γ) (party : ι) : Pc ι γ → Prop
  | .tryCas _ cur => isClosed cur = false ∧ hasQueue cur = false ∧
    state.requested party ≤ permits cur
  | .enqueueLock _ | .enqueueFlag _ => state.requested party ≤ maxPermits width
  | .enqueueCas _ cur => state.requested party ≤ maxPermits width ∧ isClosed cur = false ∧
      state.requested party ≤ permits cur ∧ hasQueue state.pool = true ∧ state.queue.entries = []
  | .enqueuePush _ => state.requested party ≤ maxPermits width ∧ hasQueue state.pool = true
  | .closeLock | .closePop | .unlock (.closing _) | .unlockStore (.closing _) =>
    isClosed state.pool = true
  | .signalTake _ _ true _ | .signalPublish _ _ true _ => isClosed state.pool = true
  | _ => True

/-- **The invariant of every run.** -/
structure Linked (width : PointerWidth) (state : State ι γ) : Prop where
  kept : Masked width state
  flagged : state.queue.entries ≠ [] → hasQueue state.pool = true
  guards : ∀ party, GuardAt width state party (state.pc party)

/-- What the closer knows. -/
theorem guardAt_closing (closing : closingAt pc = true) :
    GuardAt width state party pc ↔ isClosed state.pool = true := by
  cases pc
  case unlock back | unlockStore back => cases back <;> first | exact Iff.rfl | cases closing
  case signalTake node rest closed after | signalPublish node rest closed after =>
    cases closed <;> first | exact Iff.rfl | cases closing
  all_goals first | exact Iff.rfl | cases closing

theorem guardAt_free (free : entersAt pc = false) : GuardAt width state party pc := by
  cases pc
  case unlock back | unlockStore back => cases back <;> trivial
  case signalTake node rest closed after | signalPublish node rest closed after => cases closed <;>
    trivial
  all_goals trivial

/-- The permits a CAS takes are there. -/
theorem takes_of_guard {cur : ℕ} (guard : GuardAt width state party pc)
    (takes : (∃ attempt, pc = .tryCas attempt cur) ∨ ∃ mode, pc = .enqueueCas mode cur) :
    state.requested party ≤ permits cur := by
  rcases takes with ⟨attempt, rfl⟩ | ⟨mode, rfl⟩
  · exact guard.2.2
  · exact guard.2.2.1

/-- The flags of the pool after a CAS that takes permits. -/
theorem flags_of_cas {cur n : ℕ} (enough : n ≤ permits cur) :
    isClosed (if state.pool = cur then takePermits cur n else state.pool) = isClosed state.pool ∧
      hasQueue (if state.pool = cur then takePermits cur n else state.pool) =
        hasQueue state.pool := by
  split
  · rename_i same
    rw [same]
    exact flags_of_mod (takePermits_mod enough)
  · exact ⟨rfl, rfl⟩

/-- **No step clears `CLOSED`**, and only `close` sets it. -/
theorem poolAfter_isClosed (guard : GuardAt width state party pc) :
    isClosed (poolAfter width state party pc) = isClosed state.pool ∨
      pc = .closeFlag ∧ isClosed (poolAfter width state party pc) = true := by
  cases pc
  case tryCas attempt cur => exact .inl (flags_of_cas (takes_of_guard guard (.inl ⟨_, rfl⟩))).1
  case enqueueCas mode cur => exact .inl (flags_of_cas (takes_of_guard guard (.inr ⟨_, rfl⟩))).1
  case forgetCas n cur => exact .inl (flags_of_cas (Nat.min_le_left _ _)).1
  case drainCas after cur =>
    simp only [poolAfter]
    split
    · rename_i same
      rw [same]
      exact .inl takeAll_isClosed
    · exact .inl rfl
  case unlock back =>
    simp only [poolAfter]
    split
    · exact .inl clearQueue_isClosed
    · exact .inl rfl
  case releaseAdd | drainReturn => exact .inl addPermits_isClosed
  case enqueueFlag => exact .inl setQueue_isClosed
  case closeFlag => exact .inr ⟨rfl, setClosed_isClosed⟩
  all_goals exact .inl rfl

/-- **The flag**: an enqueuer sets it, the unlock of an empty queue clears it. -/
theorem poolAfter_hasQueue (guard : GuardAt width state party pc) :
    hasQueue (poolAfter width state party pc) = hasQueue state.pool ∨
      ((∃ mode, pc = .enqueueFlag mode) ∧ hasQueue (poolAfter width state party pc) = true) ∨
      ((∃ back, pc = .unlock back) ∧ state.queue.entries = []) := by
  cases pc
  case tryCas attempt cur => exact .inl (flags_of_cas (takes_of_guard guard (.inl ⟨_, rfl⟩))).2
  case enqueueCas mode cur => exact .inl (flags_of_cas (takes_of_guard guard (.inr ⟨_, rfl⟩))).2
  case forgetCas n cur => exact .inl (flags_of_cas (Nat.min_le_left _ _)).2
  case drainCas after cur =>
    simp only [poolAfter]
    split
    · rename_i same
      rw [same]
      exact .inl takeAll_hasQueue
    · exact .inl rfl
  case unlock back =>
    simp only [poolAfter]
    split
    · rename_i empty
      exact .inr (.inr ⟨⟨back, rfl⟩, List.isEmpty_iff.mp empty⟩)
    · exact .inl rfl
  case releaseAdd | drainReturn => exact .inl addPermits_hasQueue
  case enqueueFlag mode => exact .inr (.inl ⟨⟨mode, rfl⟩, setQueue_hasQueue⟩)
  case closeFlag => exact .inl setClosed_hasQueue
  all_goals exact .inl rfl

/-- The linked nodes after a step: `push` is the only one that links a node. -/
theorem queueAfter_entries (state : State ι γ) (party : ι) (pc : Pc ι γ) :
    (∃ mode, pc = .enqueuePush mode) ∨
    (queueAfter state party pc).entries.Sublist state.queue.entries := by
  cases pc
  case enqueuePush mode => exact .inl ⟨mode, rfl⟩
  case drainLock | cancelLock | closeLock =>
    rw [queueAfter, lockAfter_entries]
    exact .inr (.refl _)
  case drainServe after available =>
    refine .inr ?_
    show (serve state.queue.entries state.signal available).rest.Sublist state.queue.entries
    conv_rhs => rw [serve_entries state.queue.entries state.signal available]
    exact List.sublist_append_right _ _
  case unlock back =>
    simp only [queueAfter]
    split <;> exact .inr (.refl _)
  case cancelRemove => exact .inr List.erase_sublist
  case closePop => exact .inr (List.nil_sublist _)
  all_goals exact .inr (.refl _)

/-- Outside of the lock nothing is linked or unlinked, and the flag stays. -/
theorem shared_free (guard : GuardAt width state party pc) (free : lockedAt pc = false) :
    hasQueue (poolAfter width state party pc) = hasQueue state.pool ∧
      (queueAfter state party pc).entries = state.queue.entries := by
  refine ⟨?_, ?_⟩
  · rcases poolAfter_hasQueue guard with same | ⟨⟨mode, rfl⟩, -⟩ | ⟨⟨back, rfl⟩, -⟩
    · exact same
    · cases free
    · cases free
  · cases pc
    case drainLock | cancelLock | closeLock => exact lockAfter_entries _ _
    all_goals first | rfl | cases free

/-- What the others know outlives a step. -/
theorem GuardAt.other (guard : GuardAt width state party pc)
    (request : next.request party = state.request party) (held : lockedAt pc = true →
      hasQueue next.pool = hasQueue state.pool ∧ next.queue.entries = state.queue.entries)
    (closed : isClosed state.pool = true → isClosed next.pool = true) :
    GuardAt width next party pc := by
  have asks : next.requested party = state.requested party := by rw [State.requested, request]
  by_cases closing : closingAt pc = true
  · rw [guardAt_closing closing] at guard ⊢
    exact closed guard
  cases pc
  case tryCas attempt cur =>
    obtain ⟨opened, vacant, enough⟩ := guard
    exact ⟨opened, vacant, asks ▸ enough⟩
  case enqueueLock | enqueueFlag => exact asks.trans_le guard
  case enqueueCas mode cur =>
    obtain ⟨small, opened, enough, flag, empty⟩ := guard
    obtain ⟨sameFlag, sameEntries⟩ := held rfl
    exact ⟨asks ▸ small, opened, asks ▸ enough, sameFlag.trans flag, sameEntries.trans empty⟩
  case enqueuePush mode => exact ⟨asks ▸ guard.1, (held rfl).1.trans guard.2⟩
  all_goals exact guardAt_free (Bool.eq_false_iff.mpr closing)

end Shared

/-! ### Every step keeps the invariant -/

section Steps

variable {width : PointerWidth} {state next : State ι γ} {party : ι}

/-- A step moves behind the mask. -/
abbrev MaskedFrom (width : PointerWidth) (state next : State ι γ) (party : ι) : Prop :=
  ∃ point, masked.Moves (state.masked width) (next.masked width) party
    (state.pc party, fits width state party) point

theorem MaskedFrom.rest (moves : MaskedFrom width state next party) {other : ι}
    (different : other ≠ party) : next.pc other = state.pc other := by
  obtain ⟨point, moves⟩ := moves
  exact congrArg Prod.fst (moves.rest different)

section

variable (linked : Linked width state) (stepped : advance width state party = some next)
include linked stepped

/-- **Every step inside a call is a move behind the mask.** -/
theorem advance_masked : MaskedFrom width state next party := by
  have shared := advance_shared stepped
  have asks : fits width next party = fits width state party := by
    rw [fits, State.requested, shared.request, fits]
  cases small : bounded width state (party, .advance) with
  | true =>
    obtain ⟨pc', moves⟩ := advance_moves (owned_of_masked linked.kept) small stepped
    refine ⟨_, moves_masked moves (fun other _ => by rw [shared.request])
      (.inl (by rw [shared.request])) ?_⟩
    intro pushed
    rcases queueAfter_entries state party (state.pc party) with ⟨mode, source⟩ | fewer
    · have guard := linked.guards party
      rw [source] at guard
      exact asks ▸ decide_eq_true guard.1
    · have shorter := fewer.length_le
      rw [← shared.queue, pushed, WaitQueue.push_entries, List.length_append] at shorter
      exact absurd shorter (by simp)
  | false =>
    obtain ⟨large, plain, node, result⟩ := advance_panics small stepped
    have point : (next.masked width) = ⟨state.queue, Function.update state.signal party node,
        Function.update (state.masked width).pc party (.future, false)⟩ := by
      have queue : next.queue = state.queue := congrArg Waiters.queue result
      have signal : next.signal = Function.update state.signal party node :=
        congrArg Waiters.signal result
      have pcs : next.pc = Function.update state.pc party .future := congrArg Waiters.pc result
      rw [State.masked, queue, signal, pcs]
      congr 1
      funext other
      by_cases self : other = party
      · subst self
        simp [asks, large]
      · have same : fits width next other = fits width state other := by
          rw [fits, State.requested, shared.request, fits]
        simp [State.masked, self, same]
    refine ⟨_, .write rfl point plain.chain.symm plain.free.symm ?_ rfl (.inl rfl)⟩
    exact Bool.and_eq_false_imp.mpr fun _ => plain.waits _

/-- What the moving party knows at its next point. -/
theorem advance_guard : GuardAt width next party (next.pc party) := by
  have shared := advance_shared stepped
  have guard := linked.guards party
  have asks : next.requested party = state.requested party := by
    rw [State.requested, shared.request]
  have decided {mode : Mode} {cur : ℕ} (small : state.requested party ≤ maxPermits width)
      (flag : hasQueue next.pool = true) (entries : next.queue.entries = state.queue.entries) :
      GuardAt width next party (enqueueNext state party mode cur) := by
    unfold enqueueNext
    split
    · trivial
    · rename_i opened
      split
      · rename_i enough
        simp only [Bool.and_eq_true, List.isEmpty_iff, decide_eq_true_eq] at enough
        exact ⟨asks ▸ small, Bool.eq_false_iff.mpr opened, asks ▸ enough.2, flag,
          entries.trans enough.1⟩
      · exact ⟨asks ▸ small, flag⟩
  cases enters : entersAt (next.pc party) with
  | false => exact guardAt_free enters
  | true =>
    cases advance_enters stepped enters with
    | tries attempt target opened vacant enough =>
      rw [target]
      exact ⟨opened, vacant, asks ▸ enough⟩
    | admitted mode target small armed =>
      rw [target]
      exact asks.trans_le small
    | locks mode source target =>
      rw [source] at guard
      rw [target]
      exact asks.trans_le guard
    | flags mode source target =>
      rw [source] at guard shared
      rw [target]
      exact decided guard (by rw [shared.pool]; exact setQueue_hasQueue) (by rw [shared.queue]; rfl)
    | retries mode cur source target =>
      rw [source] at guard shared
      rw [target]
      refine decided guard.1 ?_ (by rw [shared.queue]; rfl)
      rw [shared.pool]
      exact (flags_of_cas guard.2.2.1).2.trans guard.2.2.2.1
    | closes source opened target =>
      rw [source] at shared
      rw [target]
      show isClosed next.pool = true
      rw [shared.pool]
      exact setClosed_isClosed
    | closing source target =>
      rw [guardAt_closing target, shared.pool]
      rcases poolAfter_isClosed guard with same | ⟨-, set⟩
      · exact same.trans ((guardAt_closing source).mp guard)
      · exact set

theorem advance_linked : Linked width next := by
  have shared := advance_shared stepped
  have moves := advance_masked linked stepped
  have guard := linked.guards party
  refine ⟨?_, fun some => ?_, fun other => ?_⟩
  · obtain ⟨point, moves⟩ := moves
    exact linked.kept.step moves
  · rw [shared.queue] at some
    rcases queueAfter_entries state party (state.pc party) with ⟨mode, source⟩ | fewer
    · rw [source] at guard shared
      rw [shared.pool]
      exact guard.2
    · have before : state.queue.entries ≠ [] := fun empty =>
        some (List.sublist_nil.mp (empty ▸ fewer))
      rw [shared.pool]
      rcases poolAfter_hasQueue guard with same | ⟨-, set⟩ | ⟨-, empty⟩
      · exact same.trans (linked.flagged before)
      · exact set
      · exact absurd empty before
  · by_cases self : other = party
    · subst self
      exact advance_guard linked stepped
    · rw [moves.rest self]
      refine (linked.guards other).other (by rw [shared.request]) (fun locked => ?_) fun closed =>
        ?_
      · have free : lockedAt (state.pc party) = false := by
          cases held : lockedAt (state.pc party) with
          | false => rfl
          | true => exact absurd (linked.kept.lock_unique locked held) self
        rw [shared.pool, shared.queue]
        exact shared_free guard free
      · rw [shared.pool]
        rcases poolAfter_isClosed guard with same | ⟨-, set⟩
        · exact same.trans closed
        · exact set

end

/-- A call begins with a new request, of a party that waits for nothing, or with the old one. -/
theorem begin_request {move : Move γ} (stepped : begin width state party move = some next) :
    (∀ other, other ≠ party → next.request other = state.request other) ∧
      (next.request party = state.request party ∨ state.pc party = .idle) := by
  cases move <;> simp only [begin, beginRequest] at stepped
  case advance => cases stepped
  case tryAcquire | acquire | create =>
    split at stepped <;> cases stepped
    rename_i source
    exact ⟨fun other different => Function.update_of_ne different _ _, .inr source.1⟩
  case poll waker =>
    split at stepped <;> cases stepped
    have same : (poll state party waker).request = state.request := by
      unfold poll
      dsimp only
      split
      · rfl
      · split
        · rfl
        · exact pollFinal_untouched.request
    rw [same]
    exact ⟨fun _ _ => rfl, .inl rfl⟩
  case drop =>
    split at stepped <;> cases stepped
    unfold drop
    split <;> exact ⟨fun _ _ => rfl, .inl rfl⟩
  case addPermits | dropPermit | downgrade =>
    split at stepped <;> cases stepped
    rw [release_untouched.request]
    exact ⟨fun _ _ => rfl, .inl rfl⟩
  case split =>
    split at stepped
    · split at stepped <;> cases stepped <;> exact ⟨fun _ _ => rfl, .inl rfl⟩
    · cases stepped
  all_goals
    split at stepped <;> cases stepped
    exact ⟨fun _ _ => rfl, .inl rfl⟩

/-- **The beginning of every call is a move behind the mask.** -/
theorem begin_masked {move : Move γ} (stepped : begin width state party move = some next) :
    MaskedFrom width state next party := by
  obtain ⟨others, own⟩ := begin_request stepped
  have moves : MovesFrom state next party (state.pc party) := by
    rcases begin_moves stepped with same | moves
    · refine ⟨state.pc party, ?_⟩
      rw [same]
      exact .goto rfl (by simp [State.waiters]) rfl rfl rfl (.inr rfl)
    · exact moves
  obtain ⟨pc', moves⟩ := moves
  refine ⟨_, moves_masked moves others (own.imp id fun idle => by rw [idle]; rfl) fun pushed => ?_⟩
  rw [(begin_untouched stepped).2] at pushed
  have longer := congrArg (fun queue => queue.entries.length) pushed
  simp at longer

theorem begin_linked {move : Move γ} (linked : Linked width state)
    (stepped : begin width state party move = some next) : Linked width next := by
  have moves := begin_masked stepped
  obtain ⟨pool, queue⟩ := begin_untouched stepped
  obtain ⟨others, -⟩ := begin_request stepped
  refine ⟨?_, by rw [queue, pool]; exact linked.flagged, fun other => ?_⟩
  · obtain ⟨point, moves⟩ := moves
    exact linked.kept.step moves
  · by_cases self : other = party
    · subst self
      exact guardAt_free (begin_leaves stepped)
    · rw [moves.rest self]
      exact (linked.guards other).other (others other self)
        (fun _ => by rw [pool, queue]; exact ⟨rfl, rfl⟩) fun closed => by rw [pool]; exact closed

end Steps

section Runs

variable {width : PointerWidth} {n : ℕ} {state next : State ι γ} {label : Label ι γ}

/-- **Every step is a move behind the mask.** -/
theorem step_masked (linked : Linked width state) (stepped : step width state label = some next) :
    MaskedFrom width state next label.1 := by
  unfold step at stepped
  split at stepped
  · exact advance_masked linked stepped
  · exact begin_masked stepped

theorem step_linked (linked : Linked width state) (stepped : step width state label = some next) :
    Linked width next := by
  unfold step at stepped
  split at stepped
  · exact advance_linked linked stepped
  · exact begin_linked linked stepped

theorem linked_start (kind : γ) : Linked width (start n kind : State ι γ) where
  kept := Kept.start rfl fun _ => ⟨rfl, by simp [masked, State.masked, start, waitsAt], rfl, rfl⟩
  flagged some := absurd rfl some
  guards _ := trivial

/-- **The invariant holds in every state of every run.** -/
theorem linked_of_reachable {allowed : State ι γ → Label ι γ → State ι γ → Prop}
    (reach : (machine ι γ width n).ReachableBy allowed state) : Linked width state := by
  refine reach.invariant (Linked width) ?_ ?_
  · rintro _ ⟨-, kind, rfl⟩
    exact linked_start kind
  · intro state label next _ linked stepped _
    exact step_linked linked stepped

end Runs

end Xutex.Semaphore
