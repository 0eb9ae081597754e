/-
**Every function of the semaphore keeps its books.**

Each function of the core is checked against the books of `Permits`: what it takes from the pool,
from its drain, from a served node or from a dropped permit it puts somewhere else. Where a release
adds to the pool the permits that were created bound the sum, so that it does not overflow and the
assertion holds.

The drain is the one step that changes the nodes of others: `serve_count` follows its loop.
-/

import Xutex.Semaphore.Permits

set_option linter.unusedSectionVars false

namespace Xutex.Semaphore

open Concurrency Discipline
open scoped BigOperators

variable {ι γ : Type} [DecidableEq ι] [DecidableEq γ]

/-! ### The shared endings -/

section Endings

variable {width : PointerWidth} {state before next : State ι γ} {party : ι} {pc pc' : Pc ι γ}
  {after : After γ} {mode : Mode} {n released : ℕ} {node : Signal}

@[simp] theorem finish_request : (finish state party after).request = state.request := by
  cases after <;> rfl

@[simp] theorem finish_created : (finish state party after).created = state.created := by
  cases after <;> rfl

/-- The return from `release` gives the read guard of a downgrade out. -/
theorem finish_stock : stock (finish state party after) = stock state + after.permits := by
  cases after with
  | grant permit =>
    simp only [finish, stock, State.goto, heldPermits, After.permits, List.map_cons, List.sum_cons]
    omega
  | done | closedWait | closedPoll => rfl

theorem finishPc_share (complete : Complete after node.value) :
    shareAt n node (finishPc after : Pc ι γ) = 0 := by
  have rest := finishPc_returns (ι := ι) complete
  rw [shareAt, servedAt, rest.waits]
  cases after <;> rfl

theorem finish_balance (complete : Complete after node.value) :
    stock (finish state party after) + shareAt n node (finishPc after : Pc ι γ) =
      stock state + after.permits := by
  rw [finish_stock, finishPc_share complete]
  rfl

theorem finishPc_known (request : n ≤ maxPermits width) (complete : Complete after node.value) :
    Known width n node (finishPc after : Pc ι γ) := by
  refine .free request (finishPc_returns complete).waits ?_ ?_
  · cases after <;> rfl
  · cases after <;> rfl

theorem drainChain_finishPc : drainChain (finishPc after : Pc ι γ) = [] := by cases after <;> rfl

section SignalNext

variable {closed : Bool} {chain : List ι}

theorem signalNext_request : (signalNext state party closed after chain).request =
    state.request := by
  cases chain with
  | nil => exact finish_request
  | cons node rest => rfl

theorem signalNext_created : (signalNext state party closed after chain).created =
    state.created := by
  cases chain with
  | nil => exact finish_created
  | cons node rest => rfl

theorem signalNext_balance (complete : Complete after node.value) :
    stock (signalNext state party closed after chain) +
      shareAt n node (signalPc closed after chain : Pc ι γ) = stock state + after.permits := by
  cases chain with
  | nil => exact finish_balance complete
  | cons front rest => exact congrArg (stock state + ·) (Nat.zero_add after.permits)

theorem signalPc_known (request : n ≤ maxPermits width) (complete : Complete after node.value) :
    Known width n node (signalPc closed after chain : Pc ι γ) := by
  cases chain with
  | nil => exact finishPc_known request complete
  | cons front rest => exact .free request rfl rfl rfl

theorem drainChain_signalPc :
    drainChain (signalPc closed after chain) = if closed then [] else chain := by
  cases chain with
  | nil => rw [ite_self]; exact drainChain_finishPc
  | cons front rest => cases closed <;> rfl

end SignalNext

end Endings

/-! ### Steps on the party's own node -/

section Passes

variable [Fintype ι] {width : PointerWidth} {state before next : State ι γ} {party : ι}
  {pc pc' : Pc ι γ} {after : After γ} {mode : Mode} {released : ℕ}

/-- A step that touches no other node; the own `aux` word is written only while the node is not
given away. -/
theorem Passes.alone (source : state.pc party = pc) (target : next.pc party = pc')
    (request : next.request = state.request)
    (signal : ∀ other, other ≠ party → next.signal other = state.signal other)
    (aux : (next.signal party).aux = (state.signal party).aux ∨
      waitsAt pc (state.signal party).value = false)
    (chain : drainChain pc' = [] ∨ drainChain pc' = drainChain pc)
    (known : Known width (state.requested party) (next.signal party) pc')
    (balance : stock next + shareAt (state.requested party) (next.signal party)
      pc' + state.created =
      stock state + shareAt (state.requested party) (state.signal party) pc + next.created) :
    Passes width state next party where
  request other _ := congrFun request other
  asks := .inl (congrFun request party)
  aux other different := by rw [signal other different]
  signalled other different value := .inl (signal other different ▸ value)
  own := source ▸ aux
  chain node member := by
    rw [target] at member
    rw [source]
    rcases chain with none | same
    · simp [none] at member
    · exact same ▸ member
  known := by
    rw [State.requested, request, target]
    exact known
  balance := by
    rw [share, share, State.requested, request, target, source]
    exact balance

/-- A step that touches no node. -/
theorem Passes.goto {queue : WaitQueue ι} (source : state.pc party = pc)
    (result : next.waiters = ⟨queue, state.signal, Function.update state.pc party pc'⟩)
    (request : next.request = state.request)
    (chain : drainChain pc' = [] ∨ drainChain pc' = drainChain pc)
    (known : Known width (state.requested party) (state.signal party) pc')
    (balance : stock next + shareAt (state.requested party) (state.signal party)
      pc' + state.created =
      stock state + shareAt (state.requested party) (state.signal party) pc + next.created) :
    Passes width state next party := by
  have signal : next.signal = state.signal := congrArg Waiters.signal result
  have target : next.pc party = pc' := by
    have pcs : next.pc = Function.update state.pc party pc' := congrArg Waiters.pc result
    rw [pcs, Function.update_self]
  refine .alone source target request (fun other _ => congrFun signal other) (.inl (by rw [signal]))
    chain ?_ ?_
  · rw [signal]
    exact known
  · rw [signal]
    exact balance

/-- What a function is called with: the state with the pool, the queue, the permits or the value of
the own node changed. -/
structure Prepared (state before : State ι γ) (party : ι) : Prop where
  request : before.request = state.request
  signal : ∀ other, other ≠ party → before.signal other = state.signal other
  aux : (before.signal party).aux = (state.signal party).aux

theorem Prepared.same (request : before.request = state.request)
    (signal : before.signal = state.signal) :
    Prepared state before party := ⟨request, fun other _ => congrFun signal other, by rw [signal]⟩

theorem Prepared.setValue (value : SignalValue) :
    Prepared state (state.setSignal party ((state.signal party).setValue value)) party :=
  ⟨rfl, fun _ different => Function.update_of_ne different _ _,
    by simp only [State.setSignal, Function.update_self, Signal.setValue_aux]⟩

/-- The end of a call that leaves the party with nothing, a future with `SIGNAL_RETURNED`. -/
theorem Passes.complete (prepared : Prepared state before party) (source : state.pc party = pc)
    (request : state.requested party ≤ maxPermits width)
    (balance : stock before + state.created =
      stock state + shareAt (state.requested party) (state.signal party) pc + before.created) :
    Passes width state (before.goto party .idle) party ∧
      Passes width state
        ((before.setSignal party ((before.signal party).setValue .returned)).goto party
        .future) party := by
  constructor
  · exact .alone source (Function.update_self _ _ _) prepared.request prepared.signal
      (.inl prepared.aux) (.inl rfl) (.free request rfl rfl rfl) balance
  · have node : ((before.setSignal party ((before.signal party).setValue .returned)).goto party
        (.future : Pc ι γ)).signal party = (before.signal party).setValue .returned :=
      Function.update_self _ _ _
    refine .alone source (Function.update_self _ _ _) prepared.request
      (fun other different => (Function.update_of_ne different _ _).trans
      (prepared.signal other different)) (.inl (by rw [node, Signal.setValue_aux, prepared.aux]))
      (.inl rfl) ?_ ?_
    · rw [node]
      exact .free request rfl rfl rfl
    · rw [node]
      exact balance

/-- The permits of the request go to the caller. -/
theorem grant_stock : stock (state.grant party) = stock state + state.requested party := by
  simp only [stock, State.grant, State.report, State.requested, heldPermits, List.map_cons,
    List.sum_cons]
  omega

section

variable (prepared : Prepared state before party) (source : state.pc party = pc)
  (request : state.requested party ≤ maxPermits width)
include prepared source request

theorem acquired_passes
    (balance : stock before + state.requested party + state.created = stock state + shareAt
      (state.requested party) (state.signal party) pc + before.created) :
    Passes width state (acquired before party mode) party := by
  have granted : stock (before.grant party) + state.created =
      stock state + shareAt (state.requested party) (state.signal party) pc + before.created := by
    rw [grant_stock, State.requested, prepared.request]
    exact balance
  have kept : Prepared state (before.grant party) party :=
    ⟨prepared.request, prepared.signal, prepared.aux⟩
  have ends := Passes.complete kept source request granted
  cases mode with
  | wait => exact ends.1
  | poll waker => exact ends.2

theorem refused_passes
    (balance : stock before + state.created = stock state + shareAt (state.requested party)
      (state.signal party) pc + before.created) :
    Passes width state (refused before party mode) party := by
  have kept : Prepared state (before.report party (.refused .closed)) party :=
    ⟨prepared.request, prepared.signal, prepared.aux⟩
  have ends := Passes.complete kept source request balance
  cases mode with
  | wait => exact ends.1
  | poll waker => exact ends.2

/-- The return from `release` or `drain`. -/
theorem finish_passes (complete : Complete after (before.signal party).value)
    (balance : stock before + after.permits + state.created = stock state + shareAt
      (state.requested party) (state.signal party) pc + before.created) :
    Passes width state (finish before party after) party := by
  have signal : (finish before party after).signal = before.signal :=
    congrArg Waiters.signal finish_waiters
  have target : (finish before party after).pc party = finishPc after := by
    have pcs : (finish before party after).pc = Function.update before.pc party _ :=
      congrArg Waiters.pc finish_waiters
    rw [pcs, Function.update_self]
  refine .alone source target (finish_request.trans prepared.request)
    (fun other different => (congrFun signal other).trans (prepared.signal other different))
    (.inl (by rw [signal, prepared.aux])) (.inl drainChain_finishPc) ?_ ?_
  · rw [signal]
    exact finishPc_known request complete
  · rw [signal, finish_balance complete, finish_created]
    exact balance

/-- A call that releases what its share was. -/
theorem release_passes (complete : Complete after (before.signal party).value)
    (balance : stock before + (released + after.permits) + state.created = stock state + shareAt
      (state.requested party) (state.signal party) pc + before.created) :
    Passes width state (release before party released after) party := by
  unfold release
  split
  · rename_i none
    rw [none, Nat.zero_add] at balance
    exact finish_passes prepared source request complete balance
  · refine .alone source (Function.update_self _ _ _) prepared.request prepared.signal
      (.inl prepared.aux) (.inl rfl) (.free request rfl rfl rfl) ?_
    have share : shareAt (state.requested party) (before.signal party)
        (.releaseAdd released after : Pc ι γ) = released + after.permits :=
      Nat.zero_add (released + after.permits)
    rw [← share] at balance
    exact balance

end

/-! ### Acquiring -/

theorem Ledger.knownAt (ledger : Ledger width state) (source : state.pc party = pc) :
    Known width (state.requested party) (state.signal party) pc := source ▸ ledger.known party

/-- A party that arms its node, or panics on a request that is too large. -/
theorem enqueueOrAcquire_passes {node : Signal} (source : state.pc party = pc) (plain : Plain pc)
    (nothing : shareAt (state.requested party) (state.signal party) pc = 0)
    (request : state.requested party ≤ maxPermits width) (aux : node.aux = state.requested party) :
    Passes width state (enqueueOrAcquire width (state.setSignal party node) party mode) party := by
  have fits : (state.setSignal party node).requested party ≤ maxPermits width := request
  unfold enqueueOrAcquire
  rw [if_pos fits]
  have armed : ((state.setSignal party node).goto party (.enqueueLock mode)).signal party = node :=
    Function.update_self _ _ _
  refine .alone source (Function.update_self _ _ _) rfl
    (fun other different => Function.update_of_ne different _ _) (.inr (plain.waits _)) (.inl rfl)
    ?_ ?_
  · rw [armed]
    exact .arm request rfl aux (by rintro _ ⟨⟩)
  · rw [nothing]
    rfl

theorem tryNext_passes {attempt : Attempt} (source : state.pc party = pc) (plain : Plain pc)
    (nothing : shareAt (state.requested party) (state.signal party) pc = 0)
    (request : state.requested party ≤ maxPermits width) :
    Passes width state (tryNext width state party attempt state.pool) party := by
  have goto (pc' : Pc ι γ) (none : shareAt (state.requested party) (state.signal party) pc' = 0)
      (chain : drainChain pc' = [])
      (known : Known width (state.requested party) (state.signal party) pc') :
      Passes width state (state.goto party pc') party := by
    refine .goto source rfl rfl (.inl chain) known ?_
    rw [none, nothing]
    rfl
  have unchanged : stock state + state.created =
      stock state + shareAt (state.requested party) (state.signal party) pc + state.created := by
    rw [nothing]
    rfl
  have reported (outcome : Outcome) :
      Passes width state ((state.report party outcome).goto party .idle) party := by
    have prepared : Prepared state (state.report party outcome) party := .same rfl rfl
    exact (Passes.complete prepared source request unchanged).1
  have closed (mode : Mode) : Passes width state (refused state party mode) party :=
    refused_passes (.same rfl rfl) source request unchanged
  have again (attempt : Attempt) : Passes width state (state.goto party (.tryLoad attempt)) party :=
    goto _ rfl rfl (.free request rfl rfl rfl)
  unfold tryNext
  split
  · cases attempt with
    | tryAcquire => exact reported _
    | acquireSync => exact again _
    | acquireSyncSlow => exact closed .wait
    | pollAcquire waker => exact again _
    | pollAcquireSlow waker => exact closed (.poll waker)
  · split
    · cases attempt with
      | tryAcquire => exact reported _
      | acquireSync => exact again _
      | acquireSyncSlow => exact enqueueOrAcquire_passes source plain nothing request rfl
      | pollAcquire waker => exact again _
      | pollAcquireSlow waker => exact enqueueOrAcquire_passes source plain nothing request rfl
    · rename_i enough
      simp only [Bool.or_eq_true, decide_eq_true_eq, not_or, not_lt] at enough
      refine goto _ rfl rfl ⟨request, never, never, never, fun cur taken => ?_⟩
      obtain rfl : state.pool = cur := Option.some.inj taken
      exact enough.2

theorem tryCas_passes {attempt : Attempt} {cur : ℕ} (ledger : Ledger width state)
    (source : state.pc party = .tryCas attempt cur) :
    Passes width state (tryCas width state party attempt cur) party := by
  have known := ledger.knownAt source
  unfold tryCas
  split
  · rename_i same
    have taken (mode : Mode) : Passes width state
        (acquired { state with pool := takePermits cur (state.requested party) } party mode)
        party := by
      refine acquired_passes (.same rfl rfl) source known.request ?_
      have enough := known.takes cur rfl
      have none : shareAt (state.requested party) (state.signal party)
          (.tryCas attempt cur : Pc ι γ) = 0 := rfl
      simp only [stock, takePermits_permits, none, same]
      omega
    unfold tryTaken
    cases attempt <;> exact taken _
  · exact tryNext_passes source ⟨rfl, rfl, fun _ => rfl⟩ rfl known.request

/-- The three ways on from a read of `enqueue_or_acquire`. -/
theorem enqueueNext_passes {cur pool : ℕ} (source : state.pc party = pc)
    (known : Known width (state.requested party) (state.signal party) pc)
    (armed : armedAt pc = true)
    (nothing : shareAt (state.requested party) (state.signal party) pc = 0)
    (kept : permits pool = permits state.pool) :
    Passes width state ({ state with pool := pool }.goto party (enqueueNext state party mode cur))
      party := by
  have goto (pc' : Pc ι γ) (none : shareAt (state.requested party) (state.signal party) pc' = 0)
      (chain : drainChain pc' = [])
      (known : Known width (state.requested party) (state.signal party) pc') :
      Passes width state ({ state with pool := pool }.goto party pc') party := by
    refine .goto source rfl rfl (.inl chain) known ?_
    rw [none, nothing]
    simp only [stock, State.goto, kept]
  unfold enqueueNext
  split
  · exact goto _ rfl rfl (.free known.request rfl rfl rfl)
  · split
    · rename_i enough
      simp only [Bool.and_eq_true, decide_eq_true_eq] at enough
      refine goto _ rfl rfl (.arm known.request rfl (known.armed armed) fun taken same => ?_)
      obtain rfl : cur = taken := Option.some.inj same
      exact enough.2
    · exact goto _ rfl rfl (.arm known.request rfl (known.armed armed) (by rintro _ ⟨⟩))

theorem enqueueCas_passes {cur : ℕ} (ledger : Ledger width state)
    (source : state.pc party = .enqueueCas mode cur) :
    Passes width state (enqueueCas state party mode cur) party := by
  have known := ledger.knownAt source
  unfold enqueueCas
  split
  · rename_i same
    refine .goto source rfl rfl (.inl rfl) (.free known.request rfl rfl rfl) ?_
    have enough := known.takes cur rfl
    have none : shareAt (state.requested party) (state.signal party)
        (.enqueueCas mode cur : Pc ι γ) = 0 := rfl
    have taken : shareAt (state.requested party) (state.signal party)
        (.unlock (.acquired mode) : Pc ι γ) = state.requested party := Nat.zero_add _
    rw [none, taken]
    simp only [stock, State.goto, takePermits_permits, same]
    omega
  · exact enqueueNext_passes source known rfl rfl rfl

/-- A new waiter was served nothing. -/
theorem enqueuePush_passes (ledger : Ledger width state)
    (source : state.pc party = .enqueuePush mode) :
    Passes width state (enqueuePush state party mode) party := by
  have known := ledger.knownAt source
  have whole : (state.signal party).aux = state.requested party := known.armed rfl
  have value : (state.signal party).value = armedValue mode :=
    ledger.waiting.owned party _ (congrArg ownValue source)
  have nothing (first : Bool) : shareAt (state.requested party) (state.signal party)
      (.unlock (.enqueued mode first) : Pc ι γ) = 0 := by
    simp only [shareAt, drainedAt, transitAt, Unlock.permits, servedAt, whole, Nat.sub_self,
      ite_self]
  refine .goto source rfl rfl (.inl rfl) ⟨known.request, fun _ => whole.le, fun _ signalled => ?_,
    never, (by rintro _ ⟨⟩)⟩ ?_
  · rw [value] at signalled
    cases mode <;> cases signalled
  · rw [nothing]
    rfl

/-! ### Releasing and signalling -/

/-- **The sum of a release fits**: what is on its way was created. -/
theorem Ledger.fits (ledger : Ledger width state) (source : state.pc party = pc)
    (small : state.created ≤ maxPermits width + state.forgotten) :
    permits state.pool + shareAt (state.requested party) (state.signal party) pc ≤
      maxPermits width := by
  have room := ledger.room party
  rw [share, source] at room
  omega

theorem releaseAdd_passes (ledger : Ledger width state)
    (small : state.created ≤ maxPermits width + state.forgotten)
    (source : state.pc party = .releaseAdd released after) :
    Passes width state (releaseAdd width state party released after) party := by
  have request := (ledger.knownAt source).request
  have amount : shareAt (state.requested party) (state.signal party)
      (.releaseAdd released after : Pc ι γ) = released + after.permits := Nat.zero_add _
  have kept : shareAt (state.requested party) (state.signal party)
      (.drainLock after : Pc ι γ) = after.permits := Nat.zero_add _
  have fits : permits state.pool + released ≤ maxPermits width := by
    have room := ledger.fits source small
    omega
  have balance : stock { state with pool := addPermits width state.pool released } + after.permits +
      state.created = stock state + (released + after.permits) + state.created := by
    simp only [stock, addPermits_permits fits]
    omega
  unfold releaseAdd
  dsimp only
  rw [if_pos (releaseFits_of_le fits)]
  rw [← amount] at balance
  split
  · refine .goto source rfl rfl (.inl rfl) (.free request rfl rfl rfl) ?_
    rw [kept]
    exact balance
  · exact finish_passes (.same rfl rfl) source request
      (complete_of_own (owned_of_waiting ledger.waiting) source rfl) balance

theorem drainLock_passes (ledger : Ledger width state) (source : state.pc party = .drainLock after)
    (stepped : drainLock state party after = some next) : Passes width state next party := by
  have request := (ledger.knownAt source).request
  unfold drainLock at stepped
  split at stepped <;> cases stepped
  · refine finish_passes (.same rfl rfl) source request
      (complete_of_own (owned_of_waiting ledger.waiting) source rfl) ?_
    have kept : shareAt (state.requested party) (state.signal party)
      (.drainLock after : Pc ι γ) = after.permits := Nat.zero_add _
    rw [kept]
  · exact .goto source rfl rfl (.inl rfl) (.free request rfl rfl rfl) rfl

/-- Both ways on from a read of `drain`. -/
theorem drainTake_passes {cur : ℕ} (source : state.pc party = pc)
    (request : state.requested party ≤ maxPermits width)
    (kept : shareAt (state.requested party) (state.signal party) pc = after.permits) :
    Passes width state (state.goto party (drainTake after cur)) party := by
  have goto (pc' : Pc ι γ)
      (same : shareAt (state.requested party) (state.signal party) pc' = after.permits)
      (chain : drainChain pc' = [])
      (known : Known width (state.requested party) (state.signal party) pc') :
      Passes width state (state.goto party pc') party := by
    refine .goto source rfl rfl (.inl chain) known ?_
    rw [same, kept]
    rfl
  unfold drainTake
  split
  · exact goto _ (Nat.zero_add _) rfl (.free request rfl rfl rfl)
  · exact goto _ (Nat.zero_add _) rfl (.free request rfl rfl rfl)

section

variable (ledger : Ledger width state)
include ledger

theorem drainCas_passes {cur : ℕ} (source : state.pc party = .drainCas after cur) :
    Passes width state (drainCas state party after cur) party := by
  have request := (ledger.knownAt source).request
  have kept : shareAt (state.requested party) (state.signal party)
      (.drainCas after cur : Pc ι γ) = after.permits := Nat.zero_add _
  unfold drainCas
  split
  · rename_i same
    have taken : shareAt (state.requested party) (state.signal party)
        (.drainServe after (permits cur) : Pc ι γ) = permits cur + after.permits := rfl
    refine .goto source rfl rfl (.inl rfl) (.free request rfl rfl rfl) ?_
    rw [taken, kept]
    simp only [stock, State.goto, takeAll_permits, same]
    omega
  · exact drainTake_passes source request kept

theorem drainReturn_passes {available : ℕ} {chain : List ι}
    (small : state.created ≤ maxPermits width + state.forgotten)
    (source : state.pc party = .drainReturn after available chain) :
    Passes width state (drainReturn width state party after available chain) party := by
  have amount : shareAt (state.requested party) (state.signal party)
      (.drainReturn after available chain : Pc ι γ) = available + after.permits := rfl
  have kept : shareAt (state.requested party) (state.signal party)
      (.unlock (.drained chain after) : Pc ι γ) = after.permits := Nat.zero_add _
  have fits : permits state.pool + available ≤ maxPermits width := by
    have room := ledger.fits source small
    omega
  refine .goto source rfl rfl (.inr rfl) (.free (ledger.knownAt source).request rfl rfl rfl) ?_
  rw [amount, kept]
  simp only [drainReturn, stock, State.goto, addPermits_permits fits]
  omega

/-- **The end of every critical section.** -/
theorem unlocked_passes {back : Unlock ι γ} (source : state.pc party = pc)
    (known : Known width (state.requested party) (state.signal party) (.unlock back))
    (same : shareAt (state.requested party) (state.signal party) pc = shareAt
      (state.requested party) (state.signal party) (.unlock back))
    (chain : drainChain pc = drainChain (.unlock back)) (own : ownValue pc = back.own) :
    Passes width state (unlocked { state with queue := state.queue.unlock } party back) party := by
  have request := known.request
  have goto (pc' : Pc ι γ)
      (kept : shareAt (state.requested party) (state.signal party) pc' =
        shareAt (state.requested party) (state.signal party) (.unlock back))
      (none : drainChain pc' = [])
      (known : Known width (state.requested party) (state.signal party) pc') :
      Passes width state ({ state with queue := state.queue.unlock }.goto party pc') party := by
    refine .goto source rfl rfl (.inl none) known ?_
    rw [kept, same]
    rfl
  cases back with
  | acquired mode =>
    refine acquired_passes (.same rfl rfl) source request ?_
    rw [same, show shareAt (state.requested party) (state.signal party)
      (.unlock (.acquired mode) : Pc ι γ) = state.requested party from Nat.zero_add _]
    rfl
  | closed mode =>
    refine refused_passes (.same rfl rfl) source request ?_
    rw [same]
    rfl
  | enqueued mode first =>
    cases mode with
    | wait =>
      cases first with
      | false => exact goto _ rfl rfl (known.goto rfl rfl rfl)
      | true => exact goto _ rfl rfl (known.goto rfl rfl rfl)
    | poll waker => exact goto _ rfl rfl (known.goto rfl rfl rfl)
  | drained popped after =>
    have complete : Complete after (state.signal party).value :=
      complete_of_own (owned_of_waiting ledger.waiting) source own
    have amount : shareAt (state.requested party) (state.signal party)
      (.unlock (.drained popped after) : Pc ι γ) = after.permits := Nat.zero_add _
    refine .goto source signalNext_waiters signalNext_request
      (.inr (drainChain_signalPc.trans chain.symm)) (signalPc_known request complete) ?_
    rw [same, amount, unlocked, signalNext_balance complete, signalNext_created]
    rfl
  | closing popped =>
    have complete : Complete (.done : After γ) (state.signal party).value := complete_of_none rfl
    refine .goto source signalNext_waiters signalNext_request (.inl drainChain_signalPc)
      (signalPc_known request complete) ?_
    rw [same, unlocked, signalNext_balance complete, signalNext_created]
    rfl
  | cancelFound granted headChanged =>
    have amount : shareAt (state.requested party) (state.signal party)
        (.unlock (.cancelFound granted headChanged) : Pc ι γ) = granted := Nat.zero_add _
    unfold unlocked
    dsimp only
    split
    · refine release_passes (.same rfl rfl) source request (complete_of_none rfl) ?_
      rw [same, amount]
      rfl
    · rename_i none
      obtain rfl : granted = 0 := Nat.eq_zero_of_not_pos none
      split
      · exact goto _ rfl rfl (.free request rfl rfl rfl)
      · exact goto _ rfl rfl (.free request rfl rfl rfl)
  | cancelMissing => exact goto _ rfl rfl (known.goto rfl rfl rfl)

theorem unlock_passes {back : Unlock ι γ}
    (small : state.created ≤ maxPermits width + state.forgotten)
    (source : state.pc party = .unlock back) :
    Passes width state (unlock width state party back) party := by
  have known := ledger.knownAt source
  unfold unlock
  split
  · have bound : permits state.pool ≤ maxPermits width := by
      have room := ledger.fits source small
      omega
    have same : shareAt (state.requested party) (state.signal party) (.unlockStore back : Pc ι γ) =
        shareAt (state.requested party) (state.signal party) (.unlock back) := rfl
    refine .goto source rfl rfl (.inr (by cases back <;> rfl)) (known.goto rfl rfl rfl) ?_
    rw [same]
    simp only [stock, State.goto, clearQueue_permits bound]
  · exact unlocked_passes ledger source known rfl rfl rfl

theorem signalTake_passes {node : ι} {rest : List ι} {closed : Bool}
    (source : state.pc party = .signalTake node rest closed after) :
    Passes width state (signalTake state party node rest closed after) party := by
  have others (other : ι) :
      ((signalTake state party node rest closed after).signal other).value =
      (state.signal other).value ∧
      ((signalTake state party node rest closed after).signal other).aux =
      (state.signal other).aux := by
    by_cases same : other = node
    · subst same
      simp [signalTake]
    · simp [signalTake, same]
  have target : (signalTake state party node rest closed after).pc party =
      .signalPublish node rest closed after := Function.update_self _ _ _
  refine ⟨fun _ _ => rfl, .inl rfl, fun other _ => (others other).2, fun other _ value => .inl ?_,
    .inl (others party).2, fun popped member => ?_, ?_, ?_⟩
  · rw [← (others other).1]
    exact value
  · rw [target] at member
    rw [source]
    cases closed <;> exact member
  · rw [target]
    exact .free (ledger.knownAt source).request rfl rfl rfl
  · rw [share, share, target, source]
    rfl

/-- Only a node that was served in full is told so. -/
theorem signalPublish_passes {node : ι} {rest : List ι} {closed : Bool}
    (source : state.pc party = .signalPublish node rest closed after) :
    Passes width state (signalPublish state party node rest closed after) party := by
  have different : node ≠ party := (ledger.waiting.publishes source rfl).1
  have request := (ledger.knownAt source).request
  let before := state.setSignal node ((state.signal node).setValue (signalValue closed))
  have aux (other : ι) : (before.signal other).aux = (state.signal other).aux := by
    by_cases same : other = node
    · subst same
      simp [before]
    · simp [before, same]
  have self : before.signal party = state.signal party := Function.update_of_ne different.symm _ _
  have complete : Complete after (before.signal party).value := by
    rw [self]
    exact complete_of_own (owned_of_waiting ledger.waiting) source rfl
  have signal : (signalPublish state party node rest closed after).signal = before.signal :=
    congrArg Waiters.signal signalNext_waiters
  have requests : (signalPublish state party node rest closed after).request = state.request :=
    signalNext_request
  have target : (signalPublish state party node rest closed after).pc party =
      signalPc closed after rest := by
    have pcs : (signalPublish state party node rest closed after).pc =
        Function.update state.pc party (signalPc closed after rest) :=
      congrArg Waiters.pc signalNext_waiters
    rw [pcs, Function.update_self]
  refine ⟨fun other _ => congrFun requests other, .inl (congrFun requests party),
    fun other _ => by rw [signal, aux], fun other _ value => ?_, .inl (by rw [signal, aux]),
    fun popped member => ?_, ?_, ?_⟩
  · by_cases same : other = node
    · subst same
      rw [signal] at value
      cases closed with
      | false => exact .inr (ledger.drained party other (by rw [source]; exact List.mem_cons_self))
      | true => simp [before, signalValue] at value
    · rw [signal, show before.signal other = state.signal other from Function.update_of_ne same _
        _] at value
      exact .inl value
  · rw [target, drainChain_signalPc] at member
    rw [source]
    cases closed with
    | false => exact List.mem_cons_of_mem node member
    | true => cases member
  · rw [State.requested, requests, target, signal]
    exact signalPc_known request complete
  · have kept : shareAt (state.requested party) (state.signal party)
        (.signalPublish node rest closed after : Pc ι γ) = after.permits := Nat.zero_add _
    rw [share, share, State.requested, requests, target, source, signal, kept, signalPublish,
      signalNext_balance complete, signalNext_created]
    rfl

end

/-! ### Waiting and cancelling -/

/-- A waiter holds what its node was served. -/
theorem shareAt_waits {n : ℕ} {node : Signal} (waits : waitsAt pc node.value = true)
    (none : drainedAt pc + transitAt n pc = 0) : shareAt n node pc = n - node.aux := by
  rw [shareAt, none, servedAt, if_pos waits, Nat.zero_add]

theorem shareAt_free {n : ℕ} {node : Signal} (waits : waitsAt pc node.value = false)
    (none : drainedAt pc + transitAt n pc = 0) : shareAt n node pc = 0 := by
  rw [shareAt, none, servedAt, waits]
  rfl

/-- A party with no share is done. -/
theorem Passes.idle (source : state.pc party = pc)
    (nothing : shareAt (state.requested party) (state.signal party) pc = 0)
    (request : state.requested party ≤ maxPermits width) :
    Passes width state (state.goto party .idle) party := by
  refine .goto source rfl rfl (.inl rfl) (.free request rfl rfl rfl) ?_
  rw [nothing]
  rfl

/-- The signal of a waiter is `SIGNAL_SIGNALED` or `SIGNAL_CLOSED`. -/
theorem Ledger.signalled_cases (ledger : Ledger width state) (source : state.pc party = pc)
    (waits : waitsAt pc (state.signal party).value = true)
    (final : (state.signal party).value.isFinal = true) :
    (state.signal party).value = .signaled ∨ (state.signal party).value = .closed :=
  of_decide_eq_true (ledger.waiting.signalled party (show waitsAt (state.pc party) _ = true by
    rw [source]; exact waits) final)

section Consume

variable (ledger : Ledger width state) (source : state.pc party = pc)
  (waits : waitsAt pc (state.signal party).value = true)
  (none : drainedAt pc + transitAt (state.requested party) pc = 0)
  (prepared : Prepared state before party)
  (stocked : stock before + state.created = stock state + before.created)
include ledger source waits none prepared stocked

/-- A closed or cancelled waiter returns what it was served. -/
theorem release_granted (complete : Complete after (before.signal party).value)
    (ends : after.permits = 0) :
    Passes width state (release before party (state.granted party) after) party := by
  refine release_passes prepared source (ledger.knownAt source).request complete ?_
  rw [shareAt_waits waits none, ends, State.granted]
  omega

/-- A signalled waiter has all it asked for. -/
theorem Ledger.whole (signalled : (state.signal party).value = .signaled) :
    stock before + state.requested party + state.created = stock state +
      shareAt (state.requested party) (state.signal party) pc + before.created := by
  have whole := (ledger.knownAt source).whole waits signalled
  rw [shareAt_waits waits none, whole]
  omega

theorem finishSync_passes (granted : before.granted party = state.granted party) :
    Passes width state (finishSync before party (state.signal party).value) party := by
  unfold finishSync
  split
  · rename_i signalled
    exact acquired_passes prepared source (ledger.knownAt source).request
      (ledger.whole source waits none prepared stocked signalled)
  · rw [granted]
    exact release_granted ledger source waits none prepared stocked (complete_of_none rfl) rfl

end Consume

section

variable (ledger : Ledger width state)
include ledger

theorem syncSpin_passes (source : state.pc party = .syncSpin) :
    Passes width state (syncSpin state party) party := by
  unfold syncSpin
  dsimp only
  split
  · exact finishSync_passes ledger source rfl rfl (.same rfl rfl) rfl rfl
  · exact .goto source rfl rfl (.inl rfl) ((ledger.knownAt source).goto rfl rfl rfl) rfl

theorem syncSwap_passes (source : state.pc party = .syncSwap) :
    Passes width state (syncSwap state party) party := by
  have prepared : Prepared state
      (state.setSignal party ((state.signal party).setValue .initWaiting)) party := .setValue _
  have granted :
      (state.setSignal party ((state.signal party).setValue .initWaiting)).granted party =
      state.granted party := congrArg (state.requested party - ·) prepared.aux
  unfold syncSwap
  dsimp only
  split
  · exact finishSync_passes ledger source rfl rfl prepared rfl granted
  · have known := ledger.knownAt source
    have node : ((state.setSignal party ((state.signal party).setValue .initWaiting)).goto party
        (.syncPark : Pc ι γ)).signal party = (state.signal party).setValue .initWaiting :=
      Function.update_self _ _ _
    refine .alone source (Function.update_self _ _ _) rfl prepared.signal (.inl prepared.aux)
      (.inl rfl) ?_ ?_
    · rw [node]
      exact ⟨known.request, fun _ => known.served rfl, (by rintro _ ⟨⟩), never, (by rintro _ ⟨⟩)⟩
    · rw [node]
      rfl

theorem syncPark_passes (source : state.pc party = .syncPark)
    (stepped : syncPark state party = some next) : Passes width state next party := by
  unfold syncPark at stepped
  dsimp only at stepped
  split at stepped <;> cases stepped
  exact finishSync_passes ledger source rfl rfl (.same rfl rfl) rfl rfl

/-- The end of a poll on a final value, from a point where the wait is read off the value. -/
theorem pollFinal_passes {waker : Waker} (source : state.pc party = pc)
    (waits : ∀ value, waitsAt pc value = valueWaits value)
    (none : drainedAt pc + transitAt (state.requested party) pc = 0)
    (final : (state.signal party).value.isFinal = true) :
    Passes width state (pollFinal state party waker (state.signal party).value) party := by
  have request := (ledger.knownAt source).request
  unfold pollFinal
  split
  · rename_i returned
    have future : waitsAt (.future : Pc ι γ) (state.signal party).value = false := by
      rw [returned]
      rfl
    refine .goto source rfl rfl (.inl rfl) (.free request future rfl rfl) ?_
    rw [shareAt_free future rfl, shareAt_free ((waits _).trans (congrArg valueWaits returned)) none]
    rfl
  · rename_i unreturned
    have waited : waitsAt pc (state.signal party).value = true := by
      rw [waits]
      revert final unreturned
      cases (state.signal party).value <;> simp [SignalValue.isFinal, valueWaits]
    split
    · refine release_granted ledger source waited none (.setValue .returned) rfl
        (fun own relies => ?_) rfl
      simp only [State.setSignal, Function.update_self, Signal.setValue_value]
      exact Option.some.inj relies
    · rename_i opened
      have signalled := (ledger.signalled_cases source waited final).resolve_right opened
      exact acquired_passes (.same rfl rfl) source request
        (ledger.whole source waited none (.same rfl rfl) rfl signalled)

theorem poll_passes {waker : Waker} (source : state.pc party = .future) :
    Passes width state (poll state party waker) party := by
  have known := ledger.knownAt source
  unfold poll
  dsimp only
  split
  · rename_i fresh
    have nothing : shareAt (state.requested party) (state.signal party) (.future : Pc ι γ) = 0 :=
      shareAt_free (congrArg valueWaits fresh) rfl
    refine .goto source rfl rfl (.inl rfl) (.free known.request rfl rfl rfl) ?_
    rw [nothing]
    rfl
  · rename_i started
    split
    · exact .goto source rfl rfl (.inl rfl) (known.goto rfl rfl rfl) rfl
    · rename_i signalled
      refine pollFinal_passes ledger source (fun _ => rfl) rfl ?_
      revert started signalled
      cases (state.signal party).value <;> simp [SignalValue.isFinal]

theorem rearmRegister_passes {waker : Waker} (source : state.pc party = .rearmRegister waker) :
    Passes width state (rearmRegister state party waker) party := by
  have known := ledger.knownAt source
  have goto (pc' : Pc ι γ) (waits : ∀ value, waitsAt pc' value = valueWaits value)
      (chain : drainChain pc' = []) (armed : armedAt pc' = false) (takes : takesAt pc' = none)
      (nothing : drainedAt pc' + transitAt (state.requested party) pc' = 0) :
      Passes width state
        ((state.setSignal party ((state.signal party).register waker)).goto party pc') party := by
    have node : ((state.setSignal party ((state.signal party).register waker)).goto party
        pc').signal party = (state.signal party).register waker := Function.update_self _ _ _
    refine .alone source (Function.update_self _ _ _) rfl
      (fun other different => Function.update_of_ne different _ _)
      (.inl (by rw [node, Signal.register_aux])) (.inl chain) ?_ ?_
    · rw [node]
      have moved : Known width (state.requested party) (state.signal party) pc' :=
        known.goto (waits _) armed takes
      exact ⟨moved.request, moved.served, moved.whole, moved.armed, moved.takes⟩
    · rw [node, shareAt, nothing, servedAt, waits]
      rfl
  unfold rearmRegister
  dsimp only
  split
  · exact goto .future (fun _ => rfl) rfl rfl rfl rfl
  · exact goto (.rearmLoad waker) (fun _ => rfl) rfl rfl rfl rfl

theorem rearmLoad_passes {waker : Waker} (source : state.pc party = .rearmLoad waker) :
    Passes width state (rearmLoad state party waker) party := by
  unfold rearmLoad
  dsimp only
  split
  · rename_i final
    exact pollFinal_passes ledger source (fun _ => rfl) rfl final
  · exact .goto source rfl rfl (.inl rfl) ((ledger.knownAt source).goto rfl rfl rfl) rfl

theorem drop_passes (source : state.pc party = .future) :
    Passes width state (drop state party) party := by
  have known := ledger.knownAt source
  have gone (nothing : valueWaits (state.signal party).value = false) :
      Passes width state (state.goto party .idle) party :=
    .idle source (shareAt_free nothing rfl) known.request
  unfold drop
  cases value : (state.signal party).value with
  | uninit | returned => exact gone (congrArg valueWaits value)
  | initWaiting | signaled | closed | all | retry =>
    exact .goto source rfl rfl (.inl rfl) (known.goto rfl rfl rfl) rfl

theorem dropLoad_passes (source : state.pc party = .dropLoad) :
    Passes width state (dropLoad state party) party := by
  have known := ledger.knownAt source
  have given {value : SignalValue} (found : (state.signal party).value = value)
      (waits : valueWaits value = true) :
      waitsAt (.dropLoad : Pc ι γ) (state.signal party).value = true :=
        (congrArg valueWaits found).trans waits
  have gone (nothing : valueWaits (state.signal party).value = false) :
      Passes width state (state.goto party .idle) party :=
    .idle source (shareAt_free nothing rfl) known.request
  unfold dropLoad
  cases value : (state.signal party).value with
  | initWaiting =>
    have waits : waitsAt (.cancelLock : Pc ι γ) (state.signal party).value =
        waitsAt (.dropLoad : Pc ι γ) (state.signal party).value := (given value rfl).symm
    have same : shareAt (state.requested party) (state.signal party) (.cancelLock : Pc ι γ) =
        shareAt (state.requested party) (state.signal party) (.dropLoad : Pc ι γ) := by
      rw [shareAt_waits rfl rfl, shareAt_waits (given value rfl) rfl]
    refine .goto source rfl rfl (.inl rfl) (known.goto waits rfl rfl) ?_
    rw [same]
    rfl
  | uninit | returned => exact gone (congrArg valueWaits value)
  | signaled =>
    exact release_passes (.same rfl rfl) source known.request (complete_of_none rfl)
      (ledger.whole source (given value rfl) rfl (.same rfl rfl) rfl value)
  | closed =>
    exact release_granted ledger source (given value rfl) rfl (.same rfl rfl) rfl
      (complete_of_none rfl) rfl
  | all | retry =>
    -- nobody writes these values to a node of the semaphore
    have cases := ledger.signalled_cases source (given value rfl)
      (congrArg SignalValue.isFinal value)
    rw [value] at cases
    rcases cases with impossible | impossible <;> cases impossible

theorem cancelLock_passes (source : state.pc party = .cancelLock)
    (stepped : cancelLock state party = some next) : Passes width state next party := by
  have known := ledger.knownAt source
  unfold cancelLock at stepped
  split at stepped <;> cases stepped
  · exact .goto source rfl rfl (.inl rfl) (known.goto rfl rfl rfl) rfl
  · exact .goto source rfl rfl (.inl rfl) (known.goto rfl rfl rfl) rfl

/-- What the unlinked node was served is on its way back. -/
theorem cancelRemove_passes (source : state.pc party = .cancelRemove) :
    Passes width state (cancelRemove state party) party := by
  have known := ledger.knownAt source
  unfold cancelRemove
  dsimp only
  split
  · have served : shareAt (state.requested party) (state.signal party) (.cancelRemove : Pc ι γ) =
        state.granted party := shareAt_waits rfl rfl
    refine .goto source rfl rfl (.inl rfl) (.free known.request rfl rfl rfl) ?_
    rw [served]
    exact congrArg (stock state + · + state.created) (Nat.zero_add _)
  · exact .goto source rfl rfl (.inl rfl) (known.goto rfl rfl rfl) rfl

theorem cancelWait_passes (source : state.pc party = .cancelWait)
    (stepped : cancelWait state party = some next) : Passes width state next party := by
  unfold cancelWait at stepped
  dsimp only at stepped
  split at stepped <;> cases stepped
  rename_i final
  split
  · exact release_granted ledger source rfl rfl (.same rfl rfl) rfl (complete_of_none rfl) rfl
  · rename_i opened
    have signalled := (ledger.signalled_cases source rfl final).resolve_right opened
    exact release_passes (.same rfl rfl) source (ledger.knownAt source).request
      (complete_of_none rfl) (ledger.whole source rfl rfl (.same rfl rfl) rfl signalled)

end

/-! ### Closing and forgetting -/

theorem closeFlag_passes (ledger : Ledger width state) (source : state.pc party = .closeFlag) :
    Passes width state (closeFlag state party) party := by
  have request := (ledger.knownAt source).request
  have goto (pc' : Pc ι γ) (none : shareAt (state.requested party) (state.signal party) pc' = 0)
      (chain : drainChain pc' = [])
      (known : Known width (state.requested party) (state.signal party) pc') :
      Passes width state ({ state with pool := setClosed state.pool }.goto party pc') party := by
    refine .goto source rfl rfl (.inl chain) known ?_
    rw [none]
    simp only [stock, State.goto, setClosed_permits]
    rfl
  unfold closeFlag
  dsimp only
  split
  · exact goto _ rfl rfl (.free request rfl rfl rfl)
  · split
    · exact goto _ rfl rfl (.free request rfl rfl rfl)
    · exact goto _ rfl rfl (.free request rfl rfl rfl)

theorem closeLock_passes (ledger : Ledger width state) (source : state.pc party = .closeLock)
    (stepped : closeLock state party = some next) : Passes width state next party := by
  have request := (ledger.knownAt source).request
  unfold closeLock at stepped
  split at stepped <;> cases stepped
  · exact .goto source rfl rfl (.inl rfl) (.free request rfl rfl rfl) rfl
  · exact .goto source rfl rfl (.inl rfl) (.free request rfl rfl rfl) rfl

theorem forgetNext_passes {n : ℕ} (source : state.pc party = pc)
    (nothing : shareAt (state.requested party) (state.signal party) pc = 0)
    (request : state.requested party ≤ maxPermits width) :
    Passes width state (forgetNext state party n state.pool) party := by
  unfold forgetNext
  split
  · refine .goto source rfl rfl (.inl rfl) (.free request rfl rfl rfl) ?_
    rw [nothing]
    rfl
  · refine .goto source rfl rfl (.inl rfl) (.free request rfl rfl rfl) ?_
    rw [nothing]
    rfl

theorem forgetCas_passes {n cur : ℕ} (ledger : Ledger width state)
    (source : state.pc party = .forgetCas n cur) :
    Passes width state (forgetCas state party n cur) party := by
  have request := (ledger.knownAt source).request
  unfold forgetCas
  split
  · rename_i same
    have idle : shareAt (state.requested party) (state.signal party) (.idle : Pc ι γ) = 0 := rfl
    have none : shareAt (state.requested party) (state.signal party)
        (.forgetCas n cur : Pc ι γ) = 0 := rfl
    refine .goto source rfl rfl (.inl rfl) (.free request rfl rfl rfl) ?_
    rw [idle, none]
    simp only [stock, State.goto, State.report, takePermits_permits, same]
    omega
  · exact forgetNext_passes source rfl request

/-! ### The drain -/

/-- Where a drain goes on after its loop. -/
def servePc (after : After γ) (chain : List ι) (available : ℕ) : Pc ι γ :=
  if 0 < available then .drainReturn after available chain else .unlock (.drained chain after)

theorem servePc_chain {chain : List ι} {available : ℕ} :
    drainChain (servePc after chain available) = chain := by
  unfold servePc
  split <;> rfl

theorem servePc_waits {chain : List ι} {available : ℕ} {value : SignalValue} :
    waitsAt (servePc after chain available) value = false := by
  unfold servePc
  split <;> rfl

theorem servePc_known {chain : List ι} {available n : ℕ} {node : Signal}
    (request : n ≤ maxPermits width) : Known width n node (servePc after chain available) := by
  refine .free request servePc_waits ?_ ?_
  · unfold servePc
    split <;> rfl
  · unfold servePc
    split <;> rfl

theorem servePc_carried {chain : List ι} {available n : ℕ} :
    drainedAt (servePc after chain available) + transitAt n (servePc after chain available) =
      available + after.permits := by
  unfold servePc
  split
  · rfl
  · rename_i none
    obtain rfl : available = 0 := Nat.eq_zero_of_not_pos none
    rfl

theorem drainServe_ledger {available : ℕ} (ledger : Ledger width state)
    (source : state.pc party = .drainServe after available) :
    Ledger width (drainServe state party after available) := by
  let served := serve state.queue.entries state.signal available
  let pc' : Pc ι γ := servePc after served.chain served.available
  have value (node : ι) : (served.signal node).value = (state.signal node).value :=
    serve_value state.queue.entries state.signal available node
  have least (node : ι) : (served.signal node).aux ≤ (state.signal node).aux :=
    serve_aux_le state.queue.entries state.signal available node
  have self : Function.update state.pc party pc' party = pc' := Function.update_self _ _ _
  have rest {other : ι} (different : other ≠ party) :
      Function.update state.pc party pc' other = state.pc other :=
        Function.update_of_ne different _ _
  have waits (node : ι) :
      waitsAt (Function.update state.pc party pc' node) (served.signal node).value =
      waitsAt (state.pc node) (state.signal node).value := by
    by_cases same : node = party
    · subst same
      rw [self, source, servePc_waits]
      rfl
    · rw [rest same, value]
  obtain ⟨_, moves⟩ := drainServe_moves source
  refine ⟨ledger.waiting.step moves, fun other => ?_, fun signaler node member => ?_, ?_⟩
  · by_cases same : other = party
    · subst same
      show Known width (state.requested other) (served.signal other)
        (Function.update state.pc other pc' other)
      rw [self]
      exact servePc_known (ledger.known other).request
    · have known := ledger.known other
      have given := waits other
      rw [rest same] at given
      show Known width (state.requested other) (served.signal other)
        (Function.update state.pc party pc' other)
      rw [rest same]
      refine ⟨known.request, fun waiting => (least other).trans (known.served (given ▸ waiting)),
        fun waiting signalled => ?_, fun armed => ?_, known.takes⟩
      · have whole := known.whole (given ▸ waiting) (value other ▸ signalled)
        have bound := least other
        omega
      · -- an armed node is not linked yet
        have apart : other ∉ state.queue.entries := by
          intro member
          obtain ⟨waiting, -⟩ := ledger.waiting.queued member
          have waiting : waitsAt (state.pc other) (state.signal other).value = true := waiting
          revert armed waiting
          cases state.pc other <;> simp [armedAt, waitsAt]
        rw [← known.armed armed]
        exact serve_aux_other state.queue.entries state.signal available apart
  · by_cases same : signaler = party
    · subst same
      have popped : node ∈ drainChain (Function.update state.pc signaler pc' signaler) := member
      rw [self, servePc_chain] at popped
      exact serve_popped state.queue.entries state.signal available popped
    · have popped : node ∈ drainChain (Function.update state.pc party pc' signaler) := member
      rw [rest same] at popped
      have none := ledger.drained signaler node popped
      exact Nat.le_zero.mp (none ▸ least node)
  · have loop : (∑ node, if waitsAt (state.pc node) (state.signal node).value then
          state.requested node - (served.signal node).aux else 0) + served.available =
        (∑ node, if waitsAt (state.pc node) (state.signal node).value then
          state.requested node - (state.signal node).aux else 0) + available :=
      serve_count state.requested (fun node => waitsAt (state.pc node) (state.signal node).value)
        state.queue.entries state.signal available
        (fun node member => (ledger.waiting.queued member).1)
        (fun node member => (ledger.known node).served (ledger.waiting.queued member).1)
    have carried : ∀ other, other ≠ party →
        drainedAt (Function.update state.pc party pc' other) +
          transitAt (state.requested other) (Function.update state.pc party pc' other) =
        drainedAt (state.pc other) + transitAt (state.requested other) (state.pc other) := by
      intro other different
      rw [rest different]
    have moved := sum_exchange party carried
    have nodes : ∑ node, share (drainServe state party after available) node =
        (∑ node, (drainedAt (Function.update state.pc party pc' node) +
          transitAt (state.requested node) (Function.update state.pc party pc' node))) +
        ∑ node, if waitsAt (state.pc node) (state.signal node).value then
          state.requested node - (served.signal node).aux else 0 := by
      rw [← Finset.sum_add_distrib]
      refine Finset.sum_congr rfl fun node _ => ?_
      rw [← waits node]
      rfl
    have before : ∑ node, share state node =
        (∑ node, (drainedAt (state.pc node) + transitAt (state.requested node) (state.pc node))) +
        ∑ node, if waitsAt (state.pc node) (state.signal node).value then
          state.requested node - (state.signal node).aux else 0 := Finset.sum_add_distrib
    have count := ledger.count
    have stocked : stock (drainServe state party after available) = stock state := rfl
    have same : (drainServe state party after available).created = state.created := rfl
    rw [self, servePc_carried, source] at moved
    have start : drainedAt (.drainServe after available : Pc ι γ) +
        transitAt (state.requested party) (.drainServe after available : Pc ι γ) =
          available + after.permits := rfl
    rw [start] at moved
    rw [nodes, stocked, same]
    rw [before] at count
    omega

/-! ### The beginning of a call -/

theorem heldPermits_erase {held : List (Permit γ)} {permit : Permit γ} (member : permit ∈ held) :
    permit.permits + heldPermits (held.erase permit) = heldPermits held :=
  List.sum_map_erase Permit.permits member

/-- Live permits are exchanged for as many, or forgotten. -/
def Exchanged (state next : State ι γ) : Prop :=
  ∃ held forgotten, next = { state with held := held, forgotten := forgotten } ∧
    heldPermits held + forgotten = heldPermits state.held + state.forgotten

theorem Ledger.exchange (ledger : Ledger width state) (exchanged : Exchanged state next) :
    Ledger width next := by
  obtain ⟨held, forgotten, rfl, same⟩ := exchanged
  refine ⟨ledger.waiting, ledger.known, ledger.drained, ?_⟩
  have count := ledger.count
  have stocked : stock { state with held := held, forgotten := forgotten } = stock state := by
    simp only [stock]
    omega
  rw [stocked]
  exact count

/-- An acquisition starts with a request that is at most `MAX_PERMITS`. -/
theorem beginRequest_passes {permit : Permit γ} {node : Signal} (source : state.pc party = .idle)
    (request : permit.permits ≤ maxPermits width) (waits : waitsAt pc' node.value = false)
    (nothing : drainedAt pc' + transitAt permit.permits pc' = 0) (chain : drainChain pc' = [])
    (armed : armedAt pc' = false) (takes : takesAt pc' = none) :
    Passes width state ({ state.setSignal party node with
      request := Function.update state.request party permit }.goto party pc') party := by
  have signal : ({ state.setSignal party node with
      request := Function.update state.request party permit }.goto party pc').signal party = node :=
    Function.update_self _ _ _
  have target : ({ state.setSignal party node with
      request := Function.update state.request party permit }.goto party pc').pc party = pc' :=
    Function.update_self _ _ _
  have asked : ({ state.setSignal party node with
      request := Function.update state.request party permit }.goto party pc').requested party =
      permit.permits := congrArg Permit.permits (Function.update_self _ _ _)
  have others {other : ι} (different : other ≠ party) :
      Function.update state.signal party node other = state.signal other :=
    Function.update_of_ne different _ _
  refine ⟨fun other different => Function.update_of_ne different _ _, .inr (by rw [source]; rfl),
    fun other different => congrArg Signal.aux (others different),
    fun other different value => .inl ?_, .inr (by rw [source]; rfl), fun popped member => ?_,
    ?_, ?_⟩
  · rw [← others different]
    exact value
  · rw [target, chain] at member
    cases member
  · rw [asked, target, signal]
    exact .free request waits armed takes
  · rw [share, share, asked, target, signal, source, shareAt_free waits nothing]
    rfl

/-- The calls that return permits to the pool: by adding them, or with a permit that is given up. -/
theorem release_begins_passes {held : List (Permit γ)} {created : ℕ} (ledger : Ledger width state)
    (source : state.pc party = .idle) (own : after.own = none)
    (balance : heldPermits held + (released + after.permits) + state.created =
      heldPermits state.held + created) :
    Passes width state
      (release { state with held := held, created := created } party released after) party := by
  refine release_passes (.same rfl rfl) source (ledger.knownAt source).request
    (complete_of_none own) ?_
  have none : shareAt (state.requested party) (state.signal party) (.idle : Pc ι γ) = 0 := rfl
  rw [none]
  simp only [stock]
  omega

/-- The permits that a move asks for. -/
def Move.asks : Move γ → ℕ
  | .tryAcquire permit | .acquire permit | .create permit => permit.permits
  | _ => 0

/-- **The beginning of every call** is a move that passes permits on, or an exchange of live
permits. -/
theorem begin_passes {move : Move γ} (ledger : Ledger width state)
    (small : state.created ≤ maxPermits width + state.forgotten)
    (asks : move.asks ≤ maxPermits width) (stepped : begin width state party move = some next) :
    (MovesFrom state next party (state.pc party) ∧ Passes width state next party) ∨
      Exchanged state next := by
  have known (source : state.pc party = .idle) := ledger.knownAt source
  cases move <;> simp only [begin, beginRequest] at stepped
  case advance => cases stepped
  case poll waker =>
    split at stepped <;> cases stepped
    rename_i source
    exact .inl ⟨source ▸ poll_moves source, poll_passes ledger source⟩
  case drop =>
    split at stepped <;> cases stepped
    rename_i source
    exact .inl ⟨source ▸ drop_moves source, drop_passes ledger source⟩
  case tryAcquire permit | acquire permit =>
    split at stepped <;> cases stepped
    rename_i source
    rw [source.1]
    refine .inl ⟨⟨_, .goto source.1 rfl rfl rfl rfl (.inl rfl)⟩, ?_⟩
    have passes (attempt : Attempt) :
        Passes width state ({ state.setSignal party (state.signal party) with
          request := Function.update state.request party permit }.goto party (.tryLoad attempt))
          party :=
      beginRequest_passes source.1 asks rfl rfl rfl rfl rfl
    simpa only [State.setSignal, Function.update_eq_self] using passes _
  case create permit =>
    split at stepped <;> cases stepped
    rename_i source
    have idle : state.pc party = .idle := source.1
    rw [idle]
    exact .inl ⟨⟨_, .write idle rfl rfl rfl rfl rfl (.inl rfl)⟩,
      beginRequest_passes idle asks rfl rfl rfl rfl rfl⟩
  case forgetPermits n =>
    split at stepped <;> cases stepped
    rename_i source
    rw [source.1]
    exact .inl ⟨⟨_, .goto source.1 rfl rfl rfl rfl (.inl rfl)⟩,
      .goto source.1 rfl rfl (.inl rfl) (.free (known source.1).request rfl rfl rfl) rfl⟩
  case close =>
    split at stepped <;> cases stepped
    rename_i source
    rw [source]
    exact .inl ⟨⟨_, .goto source rfl rfl rfl rfl (.inl rfl)⟩,
      .goto source rfl rfl (.inl rfl) (.free (known source).request rfl rfl rfl) rfl⟩
  case addPermits n =>
    split at stepped <;> cases stepped
    rename_i source
    rw [source.1]
    refine .inl ⟨release_begins rfl source.1 rfl, release_begins_passes ledger source.1 rfl ?_⟩
    simp only [After.permits]
    omega
  case dropPermit permit =>
    split at stepped <;> cases stepped
    rename_i source
    have held := heldPermits_erase source.2
    rw [source.1]
    refine .inl ⟨release_begins rfl source.1 rfl, release_begins_passes ledger source.1 rfl ?_⟩
    simp only [After.permits]
    omega
  case downgrade permit kept =>
    split at stepped <;> cases stepped
    rename_i source
    have held := heldPermits_erase source.2.1
    have fewer := source.2.2
    rw [source.1]
    refine .inl ⟨release_begins rfl source.1 rfl, release_begins_passes ledger source.1 rfl ?_⟩
    simp only [After.permits]
    omega
  case split permit n =>
    split at stepped
    · rename_i source
      have held := heldPermits_erase source.2
      split at stepped <;> cases stepped
      · refine .inr ⟨_, _, rfl, ?_⟩
        simp only [heldPermits, List.map_cons, List.sum_cons] at held ⊢
        omega
      · exact .inr ⟨_, _, rfl, rfl⟩
    · cases stepped
  case merge permit other =>
    split at stepped <;> cases stepped
    rename_i source
    have first := heldPermits_erase source.2.1
    have second := heldPermits_erase source.2.2
    -- the sum of two live permits was created and is below the word size
    have below : permit.permits + other.permits < 2 ^ width.bits := by
      have count := ledger.count
      have bound := maxPermits_lt width
      unfold stock at count
      omega
    refine .inr ⟨_, _, rfl, ?_⟩
    rw [Nat.mod_eq_of_lt below]
    simp only [heldPermits, List.map_cons, List.sum_cons] at first second ⊢
    omega
  case forget permit =>
    split at stepped <;> cases stepped
    rename_i source
    have held := heldPermits_erase source.2
    refine .inr ⟨_, _, rfl, ?_⟩
    omega

theorem begin_ledger {move : Move γ} (ledger : Ledger width state)
    (small : state.created ≤ maxPermits width + state.forgotten)
    (asks : move.asks ≤ maxPermits width)
    (stepped : begin width state party move = some next) : Ledger width next := by
  rcases begin_passes ledger small asks stepped with ⟨moves, passes⟩ | exchanged
  · exact ledger.step moves passes
  · exact ledger.exchange exchanged

/-! ### The machine -/

/-- No request is too large, so no poll panics. -/
theorem Ledger.bounded (ledger : Ledger width state) (label : Label ι γ) :
    bounded width state label = true := by
  have admits : Admits width state label.1 := .inl (ledger.known label.1).request
  unfold Semaphore.bounded
  split
  · exact decide_eq_true admits
  · exact decide_eq_true (.inr admits)
  · rfl

/-- **Every step inside a call passes permits on**, apart from the loop of a drain. -/
theorem advance_passes (ledger : Ledger width state)
    (small : state.created ≤ maxPermits width + state.forgotten)
    (stepped : advance width state party = some next)
    (outside : ∀ after available, state.pc party ≠ .drainServe after available) :
    Passes width state next party := by
  cases source : state.pc party <;>
    simp only [advance, source, Option.some.injEq, reduceCtorEq] at stepped
  case drainLock => exact drainLock_passes ledger source stepped
  case enqueueLock mode =>
    have known := ledger.knownAt source
    unfold enqueueLock at stepped
    split at stepped <;> cases stepped
    exact .goto source rfl rfl (.inl rfl)
      (.arm known.request rfl (known.armed rfl) (by rintro _ ⟨⟩)) rfl
  case syncPark => exact syncPark_passes ledger source stepped
  case cancelLock => exact cancelLock_passes ledger source stepped
  case cancelWait => exact cancelWait_passes ledger source stepped
  case closeLock => exact closeLock_passes ledger source stepped
  all_goals subst stepped
  case drainServe after available => exact absurd source (outside after available)
  case tryLoad =>
    exact tryNext_passes source ⟨rfl, rfl, fun _ => rfl⟩ rfl (ledger.knownAt source).request
  case tryCas => exact tryCas_passes ledger source
  case releaseAdd => exact releaseAdd_passes ledger small source
  case drainLoad => exact drainTake_passes source (ledger.knownAt source).request (Nat.zero_add _)
  case drainCas => exact drainCas_passes ledger source
  case drainReturn => exact drainReturn_passes ledger small source
  case enqueueFlag =>
    exact enqueueNext_passes source (ledger.knownAt source) rfl rfl setQueue_permits
  case enqueueCas => exact enqueueCas_passes ledger source
  case enqueuePush => exact enqueuePush_passes ledger source
  case unlock => exact unlock_passes ledger small source
  case unlockStore back =>
    have known := ledger.knownAt source
    exact unlocked_passes ledger source (known.goto rfl rfl rfl) rfl (by cases back <;> rfl) rfl
  case signalTake => exact signalTake_passes ledger source
  case signalPublish => exact signalPublish_passes ledger source
  case syncSpin => exact syncSpin_passes ledger source
  case syncSwap => exact syncSwap_passes ledger source
  case rearmRegister => exact rearmRegister_passes ledger source
  case rearmLoad => exact rearmLoad_passes ledger source
  case dropLoad => exact dropLoad_passes ledger source
  case cancelRemove => exact cancelRemove_passes ledger source
  case closeFlag => exact closeFlag_passes ledger source
  case closePop =>
    exact .goto source rfl rfl (.inl rfl) (.free (ledger.knownAt source).request rfl rfl rfl) rfl
  case forgetLoad => exact forgetNext_passes source rfl (ledger.knownAt source).request
  case forgetCas => exact forgetCas_passes ledger source

/-- **Every step inside a call keeps the books.** -/
theorem advance_ledger (ledger : Ledger width state)
    (small : state.created ≤ maxPermits width + state.forgotten)
    (stepped : advance width state party = some next) : Ledger width next := by
  by_cases drains : ∃ after available, state.pc party = .drainServe after available
  · obtain ⟨after, available, source⟩ := drains
    simp only [advance, source, Option.some.injEq] at stepped
    subst stepped
    exact drainServe_ledger ledger source
  · refine ledger.step (advance_moves (owned_of_waiting ledger.waiting)
      (ledger.bounded (party, .advance)) stepped) ?_
    exact advance_passes ledger small stepped fun after available source =>
      drains ⟨after, available, source⟩

end Passes

end Xutex.Semaphore
