/-
**Ownership of the mutex is one token.**

Who owns the mutex is a guard, a guard that is being dropped, a drop that has popped a waiter and
not yet signalled it, or a waiter whose node is signalled and that has not yet taken the lock or
passed it on. `tokens` counts them all.

* `Owned` — the tokens are as many as the status says: none when unlocked, one otherwise.
* `Owned.turn` — **a step keeps the count** when what the party and the guards gain is what the
  status gains; `Owned.publish` is the one step that moves the token to another party.
* `ownership` — in every state of every run there is no token when the word is `UNLOCKED` and
  exactly one otherwise, there are never two guards, and a call that ends without the token it had,
  and without a guard, has unlocked the mutex or given the token to another party.
-/

import Xutex.Concurrency.Parties
import Xutex.Mutex.Waiting

set_option linter.unusedSectionVars false

namespace Xutex.Mutex

open Concurrency Discipline PointerWidth
open scoped BigOperators

/-! ### The tokens -/

section Tokens

variable {ι : Type} [DecidableEq ι]

/-- A guard is being dropped: it is alive until the mutex is unlocked or a waiter is popped. -/
def droppingAt : Pc ι → ℕ
  | .unlock | .unlockReload | .unlockTag _ | .unlockPop _ | .unlockFree _ => 1
  | _ => 0

/-- A waiter is popped and not yet signalled. -/
def poppedAt : Pc ι → ℕ
  | .unlockUntag _ _ | .signalTake _ | .signalPublish _ => 1
  | _ => 0

/-- The party's node is signalled, and the party has neither taken the lock nor passed it on. -/
def signalledAt (pc : Pc ι) (value : SignalValue) : ℕ :=
  (waitsAt pc value && decide (value = .signaled)).toNat

/-- The part of a party in the tokens. -/
def shareAt (pc : Pc ι) (value : SignalValue) : ℕ :=
  droppingAt pc + poppedAt pc + signalledAt pc value

/-- The tokens a party holds. -/
def share (state : State ι) (party : ι) : ℕ := shareAt (state.pc party) (state.signal party).value

variable [Fintype ι] (state : State ι)

/-- The live guards. -/
def liveGuards : ℕ := state.guards + ∑ party, droppingAt (state.pc party)

/-- The waiters popped and not yet signalled. -/
def poppedEntries : ℕ := ∑ party, poppedAt (state.pc party)

/-- The signalled nodes whose owner has not consumed or released them. -/
def signalledEntries : ℕ := ∑ party, signalledAt (state.pc party) (state.signal party).value

/-- The tokens of ownership. -/
def tokens : ℕ := liveGuards state + poppedEntries state + signalledEntries state

theorem tokens_eq : tokens state = state.guards + ∑ party, share state party := by
  simp only [tokens, liveGuards, poppedEntries, signalledEntries, share, shareAt,
    Finset.sum_add_distrib]
  omega

end Tokens

/-! ### A step keeps the count -/

variable {ι : Type} [DecidableEq ι] [Fintype ι] {width : PointerWidth} {state next : State ι}
  {status status' : Status ι} {party : ι} {pc pc' : Pc ι} {mode : Mode}

/-- **The invariant with its count.** -/
structure Owned (width : PointerWidth) (state : State ι) (status : Status ι) : Prop extends
    Described width state status where
  count : tokens state = status.tokens

/-- **A turn keeps the count**, when the other nodes keep their values and the gains are equal. -/
theorem Owned.turn (pc' : Pc ι) (lost gain : ℕ) (owned : Owned width state status)
    (turn : Turn width state next status status' party pc pc')
    (values : ∀ other, other ≠ party → (next.signal other).value = (state.signal other).value)
    (guards : next.guards + lost = state.guards + gain)
    (balance : status'.tokens + (lost + shareAt pc (state.signal party).value) =
      status.tokens + (gain + shareAt pc' (next.signal party).value)) :
    Owned width next status' where
  toDescribed := owned.toDescribed.step turn
  count := by
    have others : ∀ other, other ≠ party → share next other = share state other :=
      fun other different => by
        rw [share, values other different, show next.pc other = state.pc other from
          turn.moves.rest different, share]
    have exchange := sum_exchange party others
    have before : share state party = shareAt pc (state.signal party).value := by
      rw [share, show state.pc party = pc from turn.moves.source]
    have after : share next party = shareAt pc' (next.signal party).value := by
      rw [share, show next.pc party = pc' from turn.moves.self]
    have count := owned.count
    rw [tokens_eq] at count ⊢
    omega

/-- A turn that changes neither the word nor the queues. -/
theorem Owned.stay (pc' : Pc ι) (gain : ℕ) (owned : Owned width state status)
    (same : next.word = state.word ∧ next.queues = state.queues)
    (known : LocalAt width state.queues status party (next.signal party).value pc')
    (moves : discipline.Moves (state.waiters status) (next.waiters status) party pc pc')
    (values : ∀ other, other ≠ party → (next.signal other).value = (state.signal other).value)
    (guards : next.guards = state.guards + gain)
    (balance : shareAt pc (state.signal party).value =
      gain + shareAt pc' (next.signal party).value) : Owned width next status :=
  owned.turn pc' 0 gain ⟨same.1 ▸ owned.encodes, .inl ⟨same.2, rfl⟩, same.2 ▸ known, moves⟩ values
    guards (by omega)

/-- A party with a token finds the mutex locked. -/
theorem Owned.locked_of_share (owned : Owned width state status) (source : state.pc party = pc)
    (holds : 0 < shareAt pc (state.signal party).value) : state.word ≠ unlocked := by
  intro free
  have part := share_le_sum (share state) party
  have count := owned.count
  rw [owned.encodes.unlocked_iff.mp free, tokens_eq, Status.tokens] at count
  rw [share, source] at part
  omega

/-- **The signal moves the token**: from the party that popped the node to the node's owner. -/
theorem Owned.publish {node : ι} (owned : Owned width state status)
    (source : state.pc party = .signalPublish node) :
    Owned width (signalPublish state party node) status := by
  have waiting := owned.waiting
  have sourced : (state.waiters status).pc party = .signalPublish node := source
  obtain ⟨different, waits, unsignalled, -⟩ := waiting.publishes sourced rfl
  have moves :
      discipline.Moves (state.waiters status) ((signalPublish state party node).waiters status)
      party (.signalPublish node) .idle := .publish waiting source rfl rfl rfl rfl rfl (.inl rfl)
  have turn : Turn width state (signalPublish state party node) status status party
      (.signalPublish node) .idle := ⟨owned.encodes, .inl ⟨rfl, rfl⟩, trivial, moves⟩
  refine ⟨owned.toDescribed.step turn, ?_⟩
  have others : ∀ other, other ≠ node → other ≠ party →
      share (signalPublish state party node) other = share state other :=
    fun other notNode notParty => by simp [share, signalPublish, notNode, notParty]
  have giver : share state party = 1 := by
    rw [share, source]
    rfl
  have given : share (signalPublish state party node) party = 0 := by
    simp [share, signalPublish, shareAt, droppingAt, poppedAt, signalledAt, waitsAt]
  have taker : share (signalPublish state party node) node = share state node + 1 := by
    have still : waitsAt (state.pc node) .signaled = true := discipline.signalledWaits waits rfl
    have fresh : (state.signal node).value ≠ .signaled := fun same => by
      simp [State.waiters, valueOf, same, SignalValue.isFinal] at unsignalled
    simp [share, signalPublish, shareAt, signalledAt, different, still, fresh]
  have exchange := sum_exchange_two different others
  have count := owned.count
  rw [tokens_eq] at count ⊢
  rw [show (signalPublish state party node).guards = state.guards from rfl]
  omega

/-! ### The functions of the mutex -/

/-- Values are not written by a step that writes no node. -/
theorem values_same (other : ι) (_ : other ≠ party) :
    (state.signal other).value = (state.signal other).value := rfl

/-- Only the party's own value is written. -/
theorem values_own {node : Signal} (other : ι) (different : other ≠ party) :
    (Function.update state.signal party node other).value = (state.signal other).value := by
  rw [Function.update_of_ne different]

/-- A party that only moves on keeps its tokens. -/
theorem shareAt_moved {value : SignalValue} (waits : waitsAt pc' value = waitsAt pc value)
    (rest : droppingAt pc' + poppedAt pc' = droppingAt pc + poppedAt pc) :
    shareAt pc value = 0 + shareAt pc' value := by
  rw [shareAt, shareAt, rest, signalledAt, signalledAt, waits, Nat.zero_add]

/-- A program point of a party that has no node given away, no queue and nobody to signal: what it
relies on in its own node and the tokens it holds. -/
structure Plain (own : Option SignalValue) (held : ℕ) (pc : Pc ι) : Prop where
  chain : chainOf pc = []
  unlocked : lockedAt pc = false
  waits : ∀ value, waitsAt pc value = false
  own : ownValue pc = own
  share : ∀ value, shareAt pc value = held

/-- Where the loop of `lock_slow` and `enqueue` goes on with a word it has read. -/
theorem contendNext_plain (described : Described width state status)
    (locked : state.word ≠ unlocked) :
    Plain (some (armedValue mode)) 0 (contendNext width mode state.word : Pc ι) ∧
      ∀ value, LocalAt width state.queues status party value
        (contendNext width mode state.word) := by
  unfold contendNext
  split
  · exact ⟨⟨rfl, rfl, fun _ => rfl, rfl, fun _ => rfl⟩, fun _ => trivial⟩
  · rename_i notUpdating
    split
    · exact ⟨⟨rfl, rfl, fun _ => rfl, rfl, fun _ => rfl⟩, fun _ => trivial⟩
    · rename_i notLocked
      split
      · exact ⟨⟨rfl, rfl, fun _ => rfl, rfl, fun _ => rfl⟩, fun _ => trivial⟩
      · rename_i untagged
        exact ⟨⟨rfl, rfl, fun _ => rfl, rfl, fun _ => rfl⟩, fun _ =>
          described.encodes.untagged locked (not_or.mpr ⟨notUpdating, notLocked⟩) untagged⟩

/-- Where the drop of a guard goes on with a word it has read. -/
theorem unlockNext_plain (described : Described width state status)
    (locked : state.word ≠ unlocked) : Plain none 1 (unlockNext width state.word : Pc ι) ∧
      ∀ value, LocalAt width state.queues status party value (unlockNext width state.word) := by
  unfold unlockNext
  split
  · exact ⟨⟨rfl, rfl, fun _ => rfl, rfl, fun _ => rfl⟩, fun _ => trivial⟩
  · rename_i notSentinel
    split
    · exact ⟨⟨rfl, rfl, fun _ => rfl, rfl, fun _ => rfl⟩, fun _ => trivial⟩
    · rename_i untagged
      exact ⟨⟨rfl, rfl, fun _ => rfl, rfl, fun _ => rfl⟩, fun _ =>
        described.encodes.untagged locked notSentinel untagged⟩

section

variable (owned : Owned width state status) (source : state.pc party = pc)
include owned source

/-- A step between two plain points that touches nothing. -/
theorem Owned.goto {own own' : Option SignalValue} {held : ℕ} (before : Plain own held pc)
    (after : Plain own' held pc') (owns : own' = none ∨ own' = own)
    (known : ∀ value, LocalAt width state.queues status party value pc') :
    Owned width (state.goto party pc') status :=
  owned.stay pc' 0 ⟨rfl, rfl⟩ (known _)
    (.goto source rfl (after.chain.trans before.chain.symm)
    (after.unlocked.trans before.unlocked.symm) ((after.waits _).trans (before.waits _).symm)
      (owns.imp (after.own.trans ·) (after.own.trans <| ·.trans before.own.symm)))
    values_same rfl (by rw [before.share, after.share, Nat.zero_add])

/-- A step between two plain points that writes the party's own node. -/
theorem Owned.write {own own' : Option SignalValue} {held : ℕ} {node : Signal}
    (before : Plain own held pc) (after : Plain own' held pc')
    (owns : own' = none ∨ own' = some node.value)
    (known : ∀ value, LocalAt width state.queues status party value pc') :
    Owned width ((state.setSignal party node).goto party pc') status :=
  owned.stay pc' 0 ⟨rfl, rfl⟩ (known _)
    (.write source rfl (after.chain.trans before.chain.symm)
      (after.unlocked.trans before.unlocked.symm) (before.waits _) (after.waits _)
      (owns.imp (after.own.trans ·) (after.own.trans ·)))
    values_own rfl (by rw [before.share, after.share, Nat.zero_add])

/-- The CAS `UNLOCKED -> LOCKED` of a thread that finds the mutex unlocked. -/
theorem Owned.acquire {own : Option SignalValue} (before : Plain own 0 pc)
    (free : state.word = unlocked) :
    Owned width (acquired { state with word := width.locked } party) .locked := by
  obtain rfl := owned.encodes.unlocked_iff.mp free
  refine owned.turn .idle 0 1 ⟨rfl, .inr (.inl rfl), trivial, .goto source rfl before.chain.symm
    before.unlocked.symm (before.waits _).symm (.inl rfl)⟩ values_same rfl ?_
  rw [before.share]
  rfl

/-- The CAS `UNLOCKED -> LOCKED` of a request that finds the mutex unlocked. -/
theorem Owned.complete {own : Option SignalValue} (before : Plain own 0 pc)
    (free : state.word = unlocked) :
    Owned width (completed { state with word := width.locked } party) .locked := by
  obtain rfl := owned.encodes.unlocked_iff.mp free
  refine owned.turn .future 0 1 ⟨rfl, .inr (.inl rfl), trivial, .write source rfl before.chain.symm
    before.unlocked.symm (before.waits _) rfl (.inl rfl)⟩ values_own rfl ?_
  rw [before.share]
  simp [completed, shareAt, droppingAt, poppedAt, signalledAt, Status.tokens]

end

/-- The step keeps the invariant, under some status. -/
abbrev Keeps (width : PointerWidth) (next : State ι) : Prop := ∃ status, Owned width next status

section Acquiring

theorem idle_plain : Plain none 0 (.idle : Pc ι) := ⟨rfl, rfl, fun _ => rfl, rfl, fun _ => rfl⟩

theorem contendLock_plain : Plain (some (armedValue mode)) 0 (.contendLock mode : Pc ι) :=
  ⟨rfl, rfl, fun _ => rfl, rfl, fun _ => rfl⟩

section

variable (owned : Owned width state status)
include owned

theorem tryLock_keeps (source : state.pc party = .tryLock) :
    Keeps width (tryLock width state party) := by
  have plain : Plain none 0 (.tryLock : Pc ι) := ⟨rfl, rfl, fun _ => rfl, rfl, fun _ => rfl⟩
  unfold tryLock
  split
  · rename_i free
    exact ⟨_, owned.acquire source plain free⟩
  · exact ⟨status, owned.stay .idle 0 ⟨rfl, rfl⟩ trivial (.goto source rfl rfl rfl rfl (.inl rfl))
      values_same rfl rfl⟩

theorem lock_keeps (source : state.pc party = .lock) : Keeps width (lock width state party) := by
  have plain : Plain none 0 (.lock : Pc ι) := ⟨rfl, rfl, fun _ => rfl, rfl, fun _ => rfl⟩
  unfold lock
  split
  · rename_i free
    exact ⟨_, owned.acquire source plain free⟩
  · exact ⟨status, owned.write source plain contendLock_plain (.inr rfl) fun _ => trivial⟩

theorem pollLock_keeps {waker : Waker} (source : state.pc party = .pollLock waker) :
    Keeps width (pollLock width state party waker) := by
  have plain : Plain none 0 (.pollLock waker : Pc ι) := ⟨rfl, rfl, fun _ => rfl, rfl, fun _ => rfl⟩
  unfold pollLock
  split
  · rename_i free
    exact ⟨_, owned.complete source plain free⟩
  · rename_i busy
    obtain ⟨after, known⟩ := contendNext_plain owned.toDescribed busy
    exact ⟨status, owned.write source plain after (.inr rfl) known⟩

theorem contendLock_keeps (source : state.pc party = .contendLock mode) :
    Keeps width (contendLock width state party mode) := by
  unfold contendLock
  split
  · rename_i free
    cases mode with
    | wait => exact ⟨_, owned.acquire source contendLock_plain free⟩
    | poll waker => exact ⟨_, owned.complete source contendLock_plain free⟩
  · rename_i busy
    obtain ⟨after, known⟩ := contendNext_plain owned.toDescribed busy
    exact ⟨status, owned.goto source contendLock_plain after (.inr rfl) known⟩

theorem contendInit_keeps (source : state.pc party = .contendInit mode) :
    Keeps width (contendInit width state party mode) := by
  unfold contendInit
  split
  · rename_i found
    obtain rfl := owned.encodes.eq_locked found
    exact ⟨.updating party, owned.turn (.allocate mode) 0 0 ⟨rfl, .inr (.inl rfl), rfl,
      .lock source (WaitQueue.lock_free _ _) rfl rfl rfl rfl (.inr rfl)⟩ values_same rfl rfl⟩
  · exact ⟨status, owned.goto source ⟨rfl, rfl, fun _ => rfl, rfl, fun _ => rfl⟩ contendLock_plain
      (.inr rfl) fun _ => trivial⟩

theorem contendTag_keeps {ptr : ℕ} (source : state.pc party = .contendTag mode ptr) :
    Keeps width (contendTag state party mode ptr) := by
  have queue : width.IsQueue ptr := owned.toDescribed.here source
  unfold contendTag
  split
  · rename_i found
    obtain rfl := owned.encodes.eq_queue queue found
    exact ⟨.held party ptr, owned.turn (.push mode ptr) 0 0
      ⟨⟨queue, .inr rfl⟩, .inr (.inl rfl), rfl,
      .lock source (WaitQueue.lock_free _ _) rfl rfl rfl rfl (.inr rfl)⟩ values_same rfl rfl⟩
  · exact ⟨status, owned.goto source ⟨rfl, rfl, fun _ => rfl, rfl, fun _ => rfl⟩ contendLock_plain
      (.inr rfl) fun _ => trivial⟩

theorem allocate_keeps {ptr : ℕ} (source : state.pc party = .allocate mode)
    (queue : width.IsQueue ptr) : Keeps width (allocate state party mode ptr) := by
  obtain rfl : status = .updating party := owned.toDescribed.here source
  refine ⟨.held party ptr, owned.turn (.push mode ptr) 0 0 ⟨⟨queue, .inl owned.encodes⟩,
    .inr (.inr rfl), rfl, .goto source ?_ rfl rfl rfl (.inr rfl)⟩ values_same rfl rfl⟩
  simp [State.waiters, allocate, Status.holder, Status.entries]

theorem push_keeps {ptr : ℕ} (source : state.pc party = .push mode ptr) :
    Keeps width (push state party mode ptr) := by
  obtain rfl : status = .held party ptr := owned.toDescribed.here source
  have value : (state.signal party).value = armedValue mode :=
    owned.waiting.owned party _ (congrArg ownValue source)
  have result : (push state party mode ptr).waiters (.held party ptr) =
      ⟨(state.waiters (.held party ptr)).queue.push party,
        Function.update state.signal party (state.signal party),
        Function.update state.pc party (.publish mode ptr (state.queues ptr).isEmpty)⟩ := by
    simp [State.waiters, push, Status.entries, Status.holder, WaitQueue.push]
  refine ⟨.held party ptr, owned.turn (.publish mode ptr (state.queues ptr).isEmpty) 0 0
    ⟨owned.encodes, .inr (.inr rfl), rfl, .push source result rfl rfl rfl ?_ ?_ rfl⟩ values_same
    rfl ?_⟩
  · rw [value]
    exact modeWaits_armedValue mode
  · rw [value]
    exact armedValue_unsignalled mode
  · show 1 + 0 = 1 + (0 + shareAt _ (state.signal party).value)
    rw [value]
    cases mode <;> rfl

theorem publish_keeps {ptr : ℕ} {first : Bool} (source : state.pc party = .publish mode ptr first) :
    Keeps width (publish state party mode ptr first) := by
  obtain rfl : status = .held party ptr := owned.toDescribed.here source
  refine ⟨.queue ptr, ?_⟩
  unfold publish
  rcases mode with _ | waker
  · cases first
    · exact owned.turn .waitSwap 0 0 ⟨⟨owned.encodes.1, rfl⟩, .inr (.inr rfl), trivial,
        .unlock source rfl rfl rfl rfl rfl (.inl rfl)⟩ values_same rfl rfl
    · exact owned.turn .waitSpin 0 0 ⟨⟨owned.encodes.1, rfl⟩, .inr (.inr rfl), trivial,
        .unlock source rfl rfl rfl rfl rfl (.inl rfl)⟩ values_same rfl rfl
  · exact owned.turn .future 0 0 ⟨⟨owned.encodes.1, rfl⟩, .inr (.inr rfl), trivial,
      .unlock source rfl rfl rfl rfl rfl (.inl rfl)⟩ values_same rfl rfl

end

end Acquiring

section Waiting

section

variable (owned : Owned width state status)
include owned

/-- A thread takes the lock its signal hands over. -/
theorem Owned.consume (source : state.pc party = pc) (chain : chainOf pc = [])
    (unheld : lockedAt pc = false) (waits : waitsAt pc .signaled = true)
    (share : shareAt pc .signaled = 1) (signalled : (state.signal party).value = .signaled) :
    Owned width (acquired state party) status :=
  owned.stay .idle 1 ⟨rfl, rfl⟩ trivial
    (.consume source rfl chain.symm unheld.symm ((congrArg (waitsAt pc) signalled).trans waits)
      (congrArg SignalValue.isFinal signalled) rfl rfl)
    values_same rfl (by rw [signalled, share]; rfl)

/-- A request takes the lock its signal hands over. -/
theorem Owned.consumeWrite (source : state.pc party = pc) (chain : chainOf pc = [])
    (unheld : lockedAt pc = false) (waits : waitsAt pc .signaled = true)
    (share : shareAt pc .signaled = 1) (signalled : (state.signal party).value = .signaled) :
    Owned width (completed state party) status :=
  owned.stay .future 1 ⟨rfl, rfl⟩ trivial
    (.consumeWrite source rfl chain.symm unheld.symm ((congrArg (waitsAt pc) signalled).trans waits)
      (congrArg SignalValue.isFinal signalled) rfl (.inl rfl))
    values_own rfl (by
      rw [signalled, share]
      simp [completed, shareAt, droppingAt, poppedAt, signalledAt])

theorem waitSpin_keeps (source : state.pc party = .waitSpin) :
    Keeps width (waitSpin state party) := by
  unfold waitSpin
  split
  · rename_i signalled
    exact ⟨status, owned.consume source rfl rfl rfl rfl signalled⟩
  · exact ⟨status, owned.stay .waitSwap 0 ⟨rfl, rfl⟩ trivial
      (.goto source rfl rfl rfl rfl (.inl rfl)) values_same rfl (shareAt_moved rfl rfl)⟩

theorem waitSwap_keeps (source : state.pc party = .waitSwap) :
    Keeps width (waitSwap state party) := by
  unfold waitSwap
  dsimp only
  split
  · rename_i signalled
    exact ⟨status, owned.stay .idle 1 ⟨rfl, rfl⟩ trivial
      (.consumeWrite source rfl rfl rfl rfl (congrArg SignalValue.isFinal signalled) rfl (.inl rfl))
      values_own rfl (by rw [signalled]; rfl)⟩
  · rename_i unsignalled
    -- only `SIGNAL_SIGNALED` is ever written to a waiter, so the swap overwrites no signal
    have fresh : (state.signal party).value.isFinal = false := Bool.eq_false_iff.mpr fun final =>
      unsignalled (of_decide_eq_true
        (owned.waiting.signalled party (congrArg (waitsAt · _) source) final))
    refine ⟨status, owned.stay .waitPark 0 ⟨rfl, rfl⟩ trivial
      (.touch source rfl rfl rfl rfl (.inr ⟨fresh, rfl⟩) rfl) values_own rfl ?_⟩
    simp [shareAt, droppingAt, poppedAt, signalledAt, unsignalled]

theorem waitPark_keeps (source : state.pc party = .waitPark)
    (stepped : waitPark state party = some next) : Keeps width next := by
  unfold waitPark at stepped
  split at stepped <;> cases stepped
  rename_i signalled
  exact ⟨status, owned.consume source rfl rfl rfl rfl signalled⟩

theorem poll_keeps {waker : Waker} (source : state.pc party = .future) :
    Keeps width (poll state party waker) := by
  have queued (waits : valueWaits (state.signal party).value = true) :
      Owned width (state.goto party (.rearmRegister waker)) status :=
    owned.stay (.rearmRegister waker) 0 ⟨rfl, rfl⟩ waits
      (.goto source rfl rfl rfl rfl (.inl rfl)) values_same rfl (shareAt_moved rfl rfl)
  unfold poll
  cases value : (state.signal party).value with
  | uninit =>
    exact ⟨status, owned.stay (.pollLock waker) 0 ⟨rfl, rfl⟩ trivial
      (.goto source rfl rfl rfl (congrArg valueWaits value).symm (.inl rfl)) values_same rfl
      (by rw [value]; rfl)⟩
  | signaled => exact ⟨status, owned.consumeWrite source rfl rfl rfl rfl value⟩
  | returned => exact ⟨status, { owned with }⟩
  | initWaiting | closed | all | retry => exact ⟨status, queued (congrArg valueWaits value)⟩

theorem rearmRegister_keeps {waker : Waker} (source : state.pc party = .rearmRegister waker) :
    Keeps width (rearmRegister state party waker) := by
  have waits : valueWaits (state.signal party).value = true := owned.toDescribed.here source
  have value :
      (Function.update state.signal party ((state.signal party).register waker) party).value =
      (state.signal party).value := by rw [Function.update_self, Signal.register_value]
  unfold rearmRegister
  dsimp only
  split
  · refine ⟨status, owned.stay .future 0 ⟨rfl, rfl⟩ trivial
      (.touch source rfl rfl rfl rfl (.inl rfl) rfl) values_own rfl ?_⟩
    exact value ▸ shareAt_moved rfl rfl
  · refine ⟨status, owned.stay .rearmLoad 0 ⟨rfl, rfl⟩ ((congrArg valueWaits value).trans waits)
      (.touch source rfl rfl rfl rfl (.inl rfl) rfl) values_own rfl ?_⟩
    exact value ▸ shareAt_moved rfl rfl

theorem rearmLoad_keeps (source : state.pc party = .rearmLoad) :
    Keeps width (rearmLoad state party) := by
  have waits : valueWaits (state.signal party).value = true := owned.toDescribed.here source
  unfold rearmLoad
  split
  · rename_i final
    have waited : discipline.Waits (state.waiters status) party :=
      (congrArg (waitsAt · _) source).trans waits
    exact ⟨status, owned.consumeWrite source rfl rfl rfl rfl
      (of_decide_eq_true (owned.waiting.signalled party waited final))⟩
  · exact ⟨status, owned.stay .future 0 ⟨rfl, rfl⟩ trivial (.goto source rfl rfl rfl rfl (.inl rfl))
      values_same rfl (shareAt_moved rfl rfl)⟩

end

end Waiting

section Cancelling

section

variable (owned : Owned width state status)
include owned

theorem drop_keeps (source : state.pc party = .future) : Keeps width (drop state party) := by
  have queued (waits : valueWaits (state.signal party).value = true) :
      Owned width (state.goto party .cancelLoad) status :=
    owned.stay .cancelLoad 0 ⟨rfl, rfl⟩ trivial
      (.goto source rfl rfl rfl waits.symm (.inl rfl)) values_same rfl
      (shareAt_moved waits.symm rfl)
  have finished (ended : valueWaits (state.signal party).value = false) :
      Owned width (state.goto party .idle) status :=
    owned.stay .idle 0 ⟨rfl, rfl⟩ trivial (.goto source rfl rfl rfl ended.symm (.inl rfl))
      values_same rfl (shareAt_moved ended.symm rfl)
  unfold drop
  cases value : (state.signal party).value with
  | uninit | returned => exact ⟨status, finished (congrArg valueWaits value)⟩
  | signaled =>
    exact ⟨status, owned.stay .unlock 0 ⟨rfl, rfl⟩ trivial
      (.consume source rfl rfl rfl (congrArg valueWaits value) (congrArg SignalValue.isFinal value)
      rfl rfl) values_same rfl (by rw [value]; rfl)⟩
  | initWaiting | closed | all | retry => exact ⟨status, queued (congrArg valueWaits value)⟩

theorem cancelLoad_keeps (source : state.pc party = .cancelLoad)
    (stepped : cancelLoad width state party = some next) : Keeps width next := by
  unfold cancelLoad at stepped
  split at stepped
  · cases stepped
    exact ⟨status, owned.stay .cancelSpin 0 ⟨rfl, rfl⟩ trivial
      (.goto source rfl rfl rfl rfl (.inl rfl)) values_same rfl (shareAt_moved rfl rfl)⟩
  · rename_i present
    split at stepped
    · cases stepped
    · rename_i stable
      split at stepped <;> cases stepped
      rename_i untagged
      have queue : width.IsQueue (untagPointer width state.word).1 := by
        refine owned.encodes.untagged (fun free => present (.inl free)) ?_ untagged
        rintro (updating | locked)
        · exact stable updating
        · exact present (.inr locked)
      exact ⟨status, owned.stay (.cancelTag _) 0 ⟨rfl, rfl⟩ queue
        (.goto source rfl rfl rfl rfl (.inl rfl)) values_same rfl (shareAt_moved rfl rfl)⟩

theorem cancelTag_keeps {ptr : ℕ} (source : state.pc party = .cancelTag ptr) :
    Keeps width (cancelTag state party ptr) := by
  have queue : width.IsQueue ptr := owned.toDescribed.here source
  unfold cancelTag
  split
  · rename_i found
    obtain rfl := owned.encodes.eq_queue queue found
    exact ⟨.held party ptr, owned.turn (.cancelRemove ptr) 0 0
      ⟨⟨queue, .inr rfl⟩, .inr (.inl rfl), rfl,
      .lock source (WaitQueue.lock_free _ _) rfl rfl rfl rfl (.inl rfl)⟩ values_same rfl rfl⟩
  · exact ⟨status, owned.stay .cancelLoad 0 ⟨rfl, rfl⟩ trivial
      (.goto source rfl rfl rfl rfl (.inl rfl)) values_same rfl (shareAt_moved rfl rfl)⟩

theorem cancelRemove_keeps {ptr : ℕ} (source : state.pc party = .cancelRemove ptr) :
    Keeps width (cancelRemove state party ptr) := by
  obtain rfl : status = .held party ptr := owned.toDescribed.here source
  refine ⟨.held party ptr, ?_⟩
  by_cases member : party ∈ state.queues ptr
  · have unsignalled : (state.signal party).value ≠ .signaled := fun same => by
      have fresh := (owned.waiting.queued member).2
      simp [valueOf, State.waiters, same, SignalValue.isFinal] at fresh
    refine owned.turn (.cancelUntag ptr true) 0 0 ⟨owned.encodes, .inr (.inr rfl), rfl,
      .remove source member ?_ rfl rfl rfl rfl⟩ values_same rfl ?_
    · simp [State.waiters, cancelRemove, member, Status.entries, Status.holder, WaitQueue.remove]
    · simp [cancelRemove, shareAt, droppingAt, poppedAt, signalledAt, unsignalled]
  · refine owned.turn (.cancelUntag ptr false) 0 0 ⟨owned.encodes, .inr (.inr rfl), rfl,
      .goto source ?_ rfl rfl rfl (.inl rfl)⟩ values_same rfl rfl
    simp [State.waiters, cancelRemove, member, Status.entries, Status.holder,
      List.erase_of_not_mem member]

theorem cancelUntag_keeps {ptr : ℕ} {found : Bool}
    (source : state.pc party = .cancelUntag ptr found) :
    Keeps width (cancelUntag state party ptr found) := by
  obtain rfl : status = .held party ptr := owned.toDescribed.here source
  refine ⟨.queue ptr, ?_⟩
  unfold cancelUntag
  cases found
  · exact owned.turn .cancelSpin 0 0 ⟨⟨owned.encodes.1, rfl⟩, .inr (.inr rfl), trivial,
      .unlock source rfl rfl rfl rfl rfl (.inl rfl)⟩ values_same rfl rfl
  · exact owned.turn .idle 0 0 ⟨⟨owned.encodes.1, rfl⟩, .inr (.inr rfl), trivial,
      .unlock source rfl rfl rfl rfl rfl (.inl rfl)⟩ values_same rfl rfl

theorem cancelSpin_keeps (source : state.pc party = .cancelSpin)
    (stepped : cancelSpin state party = some next) : Keeps width next := by
  unfold cancelSpin at stepped
  split at stepped <;> cases stepped
  rename_i signalled
  exact ⟨status, owned.stay .unlock 0 ⟨rfl, rfl⟩ trivial
    (.consume source rfl rfl rfl rfl (congrArg SignalValue.isFinal signalled) rfl rfl)
    values_same rfl (by rw [signalled]; rfl)⟩

end

end Cancelling

section Unlocking

section

variable (owned : Owned width state status)
include owned

/-- The drop of a guard goes on with the word as it is. -/
theorem Owned.unlockNext (source : state.pc party = pc) (plain : Plain none 1 pc) :
    Owned width (state.goto party (unlockNext width state.word)) status := by
  have locked : state.word ≠ unlocked :=
    owned.locked_of_share source (by rw [plain.share]; exact Nat.one_pos)
  obtain ⟨after, known⟩ := unlockNext_plain owned.toDescribed locked
  exact owned.goto source plain after (.inl rfl) known

theorem unlock_keeps (source : state.pc party = .unlock) :
    Keeps width (unlock width state party) := by
  unfold unlock
  split
  · rename_i found
    obtain rfl := owned.encodes.eq_locked found
    exact ⟨.unlocked, owned.turn .idle 0 0 ⟨rfl, .inr (.inl rfl), trivial,
      .goto source rfl rfl rfl rfl (.inl rfl)⟩ values_same rfl rfl⟩
  · exact ⟨status, owned.unlockNext source ⟨rfl, rfl, fun _ => rfl, rfl, fun _ => rfl⟩⟩

theorem unlockTag_keeps {ptr : ℕ} (source : state.pc party = .unlockTag ptr) :
    Keeps width (unlockTag width state party ptr) := by
  have queue : width.IsQueue ptr := owned.toDescribed.here source
  unfold unlockTag
  split
  · rename_i found
    obtain rfl := owned.encodes.eq_queue queue found
    exact ⟨.held party ptr, owned.turn (.unlockPop ptr) 0 0
      ⟨⟨queue, .inr rfl⟩, .inr (.inl rfl), rfl,
      .lock source (WaitQueue.lock_free _ _) rfl rfl rfl rfl (.inl rfl)⟩ values_same rfl rfl⟩
  · exact ⟨status, owned.unlockNext source ⟨rfl, rfl, fun _ => rfl, rfl, fun _ => rfl⟩⟩

theorem unlockPop_keeps {ptr : ℕ} (source : state.pc party = .unlockPop ptr) :
    Keeps width (unlockPop state party ptr) := by
  obtain rfl : status = .held party ptr := owned.toDescribed.here source
  refine ⟨.held party ptr, ?_⟩
  unfold unlockPop
  split
  · rename_i empty
    exact owned.turn (.unlockFree ptr) 0 0 ⟨owned.encodes, .inr (.inr rfl), ⟨rfl, empty⟩,
      .goto source rfl rfl rfl rfl (.inl rfl)⟩ values_same rfl rfl
  · rename_i node rest front
    have front : (state.waiters (.held party ptr)).queue.entries = [node] ++ rest := front
    refine owned.turn (.unlockUntag ptr node) 0 0 ⟨owned.encodes, .inr (.inr rfl), rfl,
      .pop source ?_ front (fun _ => rfl) rfl rfl rfl (.inl rfl)⟩ values_same rfl rfl
    simp [State.waiters, Status.entries, Status.holder, WaitQueue.leave]

theorem unlockUntag_keeps {ptr : ℕ} {node : ι} (source : state.pc party = .unlockUntag ptr node) :
    Keeps width ({ state with word := ptr }.goto party (.signalTake node)) := by
  obtain rfl : status = .held party ptr := owned.toDescribed.here source
  exact ⟨.queue ptr, owned.turn (.signalTake node) 0 0 ⟨⟨owned.encodes.1, rfl⟩, .inr (.inr rfl),
    trivial, .unlock source rfl rfl rfl rfl rfl (.inl rfl)⟩ values_same rfl rfl⟩

theorem unlockFree_keeps {ptr : ℕ} (source : state.pc party = .unlockFree ptr) :
    Keeps width ({ state with word := unlocked }.goto party .idle) := by
  obtain ⟨rfl, empty⟩ : status = .held party ptr ∧ state.queues ptr = [] :=
    owned.toDescribed.here source
  refine ⟨.unlocked, owned.turn .idle 0 0 ⟨rfl, .inr (.inr rfl), trivial,
    .unlock source ?_ rfl rfl rfl rfl (.inl rfl)⟩ values_same rfl rfl⟩
  simp [State.waiters, Status.entries, Status.holder, WaitQueue.unlock, empty]

theorem signalTake_keeps {node : ι} (source : state.pc party = .signalTake node) :
    Keeps width (signalTake state party node) := by
  have values (other : ι) : ((signalTake state party node).signal other).value =
      (state.signal other).value := by
    by_cases same : other = node
    · subst same
      simp [signalTake]
    · simp [signalTake, same]
  refine ⟨status, owned.stay (.signalPublish node) 0 ⟨rfl, rfl⟩ trivial
    (.takeWaker source rfl rfl rfl rfl (.inl rfl)) (fun other _ => values other) rfl ?_⟩
  rw [values]
  rfl

end

end Unlocking

/-! ### Every run -/

/-- **Every step inside a call keeps the invariant.** -/
theorem advance_keeps (owned : Owned width state status)
    (stepped : advance width state party = some next) : Keeps width next := by
  cases source : state.pc party <;>
    simp only [advance, source, Option.some.injEq, reduceCtorEq] at stepped
  case waitPark => exact waitPark_keeps owned source stepped
  case cancelLoad => exact cancelLoad_keeps owned source stepped
  case cancelSpin => exact cancelSpin_keeps owned source stepped
  all_goals subst stepped
  case tryLock => exact tryLock_keeps owned source
  case lock => exact lock_keeps owned source
  case pollLock => exact pollLock_keeps owned source
  case contendLock => exact contendLock_keeps owned source
  case contendInit => exact contendInit_keeps owned source
  case contendTag => exact contendTag_keeps owned source
  case push => exact push_keeps owned source
  case publish => exact publish_keeps owned source
  case waitSpin => exact waitSpin_keeps owned source
  case waitSwap => exact waitSwap_keeps owned source
  case rearmRegister => exact rearmRegister_keeps owned source
  case rearmLoad => exact rearmLoad_keeps owned source
  case cancelTag => exact cancelTag_keeps owned source
  case cancelRemove => exact cancelRemove_keeps owned source
  case cancelUntag => exact cancelUntag_keeps owned source
  case unlock => exact unlock_keeps owned source
  case unlockReload =>
    exact ⟨status, owned.unlockNext source ⟨rfl, rfl, fun _ => rfl, rfl, fun _ => rfl⟩⟩
  case unlockTag => exact unlockTag_keeps owned source
  case unlockPop => exact unlockPop_keeps owned source
  case unlockUntag => exact unlockUntag_keeps owned source
  case unlockFree => exact unlockFree_keeps owned source
  case signalTake => exact signalTake_keeps owned source
  case signalPublish => exact ⟨status, owned.publish source⟩

/-- **The beginning of every call keeps the invariant.** -/
theorem begin_keeps {move : Move} (owned : Owned width state status)
    (stepped : begin width state party move = some next) : Keeps width next := by
  cases move <;> simp only [begin] at stepped
  case advance => cases stepped
  case allocate ptr =>
    split at stepped
    · rename_i source
      split at stepped <;> cases stepped
      rename_i queue
      exact allocate_keeps owned source queue
    · cases stepped
  all_goals
    split at stepped <;> cases stepped
    rename_i source
  case tryLock =>
    exact ⟨status, owned.goto source idle_plain ⟨rfl, rfl, fun _ => rfl, rfl, fun _ => rfl⟩
      (.inl rfl) fun _ => trivial⟩
  case lock =>
    exact ⟨status, owned.goto source idle_plain ⟨rfl, rfl, fun _ => rfl, rfl, fun _ => rfl⟩
      (.inl rfl) fun _ => trivial⟩
  case create =>
    refine ⟨status, owned.stay .future 0 ⟨rfl, rfl⟩ trivial
      (.write source rfl rfl rfl rfl rfl (.inl rfl)) values_own rfl ?_⟩
    simp [shareAt, droppingAt, poppedAt, signalledAt, waitsAt]
  case poll => exact poll_keeps owned source
  case drop => exact drop_keeps owned source
  case dropGuard =>
    obtain ⟨idle, present⟩ := source
    exact ⟨status, owned.turn .unlock 1 0 ⟨owned.encodes, .inl ⟨rfl, rfl⟩, trivial,
      .goto idle rfl rfl rfl rfl (.inl rfl)⟩ values_same (Nat.sub_add_cancel present) rfl⟩

theorem step_keeps {label : Label ι} (owned : Owned width state status)
    (stepped : step width state label = some next) : Keeps width next := by
  unfold step at stepped
  split at stepped
  · exact advance_keeps owned stepped
  · exact begin_keeps owned stepped

theorem owned_start (queues : ℕ → List ι) : Owned width (start queues) .unlocked where
  toDescribed := Described.start queues
  count := by
    rw [tokens_eq]
    simp [start, share, shareAt, droppingAt, poppedAt, signalledAt, waitsAt, Status.tokens]

/-- **Every state of every run is owned under some status.** -/
theorem owned_of_reachable (reach : (machine ι width).Reachable state) : Keeps width state := by
  refine reach.invariant (Keeps width) ?_ ?_
  · rintro _ ⟨queues, rfl⟩
    exact ⟨.unlocked, owned_start queues⟩
  · rintro state label next - ⟨status, owned⟩ stepped -
    exact step_keeps owned stepped

theorem Owned.tokens_eq_word (owned : Owned width state status) :
    tokens state = if state.word = unlocked then 0 else 1 := by
  rw [owned.count]
  split
  · rename_i free
    rw [owned.encodes.unlocked_iff.mp free]
    rfl
  · rename_i locked
    have different := mt owned.encodes.unlocked_iff.mpr locked
    cases status <;> simp_all [Status.tokens]

/-! ### Cancelled requests -/

/-- The drop of a request or of a guard is under way. -/
def dropsAt : Pc ι → Bool
  | .cancelLoad | .cancelTag _ | .cancelRemove _ | .cancelUntag _ _ | .cancelSpin => true
  | .unlock | .unlockReload | .unlockTag _ | .unlockPop _ | .unlockUntag _ _ | .unlockFree _ => true
  | .signalTake _ | .signalPublish _ => true
  | _ => false

/-- A drop makes no guard, and goes on or is over. -/
theorem advance_drops (drops : dropsAt (state.pc party) = true)
    (stepped : advance width state party = some next) :
    next.guards = state.guards ∧ (dropsAt (next.pc party) = true ∨ next.pc party = .idle) := by
  have unlocking : dropsAt (Mutex.unlockNext width state.word : Pc ι) = true := by
    unfold Mutex.unlockNext
    split
    · rfl
    · split <;> rfl
  cases source : state.pc party <;> simp only [source, dropsAt, Bool.false_eq_true] at drops <;>
    simp only [advance, source, Option.some.injEq] at stepped
  case cancelLoad =>
    unfold cancelLoad at stepped
    repeat' split at stepped
    all_goals cases stepped
    all_goals simp [dropsAt]
  case cancelSpin =>
    unfold cancelSpin at stepped
    split at stepped <;> cases stepped
    simp [dropsAt]
  all_goals subst stepped
  case cancelTag => unfold cancelTag; split <;> simp [dropsAt]
  case cancelRemove => simp [cancelRemove, dropsAt]
  case cancelUntag ptr found => cases found <;> simp [cancelUntag, dropsAt]
  case unlock => unfold unlock; split <;> simp [unlocking]
  case unlockReload => simp [unlocking]
  case unlockTag =>
    unfold unlockTag
    split
    · simp [dropsAt]
    · simp [unlocking]
  case unlockPop => unfold unlockPop; split <;> simp [dropsAt]
  all_goals simp [signalTake, signalPublish, dropsAt]

/-- A party with the token has it alone, and there is no guard. -/
theorem Owned.alone (owned : Owned width state status) (holds : share state party = 1) :
    state.guards = 0 := by
  have part := share_le_sum (share state) party
  have count := owned.tokens_eq_word
  rw [tokens_eq] at count
  split at count <;> omega

/-- Whoever had the token and made no guard has it still, has unlocked the mutex or has passed it
on. -/
theorem Owned.passed_on (owned : Owned width state status) (after : Keeps width next)
    (holds : share state party = 1) (guards : next.guards = state.guards) :
    share next party = 1 ∨ next.word = unlocked ∨ ∃ other, other ≠ party ∧
      share next other = 1 := by
  obtain ⟨status', owned'⟩ := after
  by_cases free : next.word = unlocked
  · exact .inr (.inl free)
  · have count := owned'.tokens_eq_word
    rw [if_neg free, tokens_eq, guards, owned.alone holds, Nat.zero_add] at count
    obtain ⟨other, one⟩ : ∃ other, share next other ≠ 0 := by
      by_contra none
      push Not at none
      simp [none] at count
    have part := share_le_sum (share next) other
    have exactly : share next other = 1 := by omega
    by_cases same : other = party
    · exact .inl (same ▸ exactly)
    · exact .inr (.inr ⟨other, same, exactly⟩)

/-- A request that holds the token was signalled. -/
theorem signalled_of_share (source : state.pc party = .future) (holds : share state party = 1) :
    (state.signal party).value = .signaled := by
  by_contra different
  simp [share, source, shareAt, droppingAt, poppedAt, signalledAt, different] at holds

/-- The drop of a request that was handed the lock drops a guard. -/
theorem drop_handed (stepped : step width state (party, .drop) = some next)
    (holds : share state party = 1) : next = state.goto party .unlock := by
  simp only [step, begin] at stepped
  split at stepped <;> cases stepped
  rename_i source
  rw [drop, signalled_of_share source holds]

/-- **Ownership is a single token.** In every state of every run, whatever the number of parties and
the interleaving, the tokens are none when the word is `UNLOCKED` and one otherwise. So two guards
never coexist; and a request that was handed the lock and is dropped starts the drop with the token
and has it until it has unlocked the mutex or passed the token to another party. -/
theorem ownership (reach : (machine ι width).Reachable state) :
    (tokens state = if state.word = unlocked then 0 else 1) ∧ liveGuards state ≤ 1 ∧
      (∀ party next, step width state (party, .drop) = some next → share state party = 1 →
        dropsAt (next.pc party) = true ∧ share next party = 1) ∧
      (∀ party next, step width state (party, .advance) = some next →
        dropsAt (state.pc party) = true → share state party = 1 →
        (dropsAt (next.pc party) = true ∧ share next party = 1) ∨ next.word = unlocked ∨
          ∃ other, other ≠ party ∧ share next other = 1) := by
  obtain ⟨status, owned⟩ := owned_of_reachable reach
  refine ⟨owned.tokens_eq_word, ?_, ?_, ?_⟩
  · have count := owned.tokens_eq_word
    unfold tokens at count
    split at count <;> omega
  · intro party next stepped holds
    obtain rfl := drop_handed stepped holds
    simp [dropsAt, share, shareAt, droppingAt, poppedAt, signalledAt, waitsAt]
  · intro party next stepped drops holds
    obtain ⟨guards, on | ended⟩ := advance_drops drops stepped
    · rcases owned.passed_on (advance_keeps owned stepped) holds guards with still | elsewhere
      · exact .inl ⟨on, still⟩
      · exact .inr elsewhere
    · rcases owned.passed_on (advance_keeps owned stepped) holds guards with still | elsewhere
      · rw [share, ended] at still
        cases still
      · exact .inr elsewhere

/-- `a` locks; the request of `b` is queued; the guard is dropped and the lock handed to `b`, whose
request is dropped before it is polled again. -/
def handedAndDropped {ι : Type} (a b : ι) : List (Label ι) :=
  [(a, .tryLock), (a, .advance), (b, .create), (b, .poll 0), (b, .advance), (b, .advance),
    (b, .allocate 8), (b, .advance), (b, .advance), (a, .dropGuard)] ++
  List.replicate 6 (a, .advance) ++ [(b, .drop)]

/-- The dropped request has the one token, and its next step keeps it, unlocks or passes it on. -/
theorem ownership_handed : ∃ state : State (Fin 2), (machine (Fin 2) .bits64).Reachable state ∧
    state.pc 1 = .unlock ∧ share state 1 = 1 ∧ tokens state = 1 ∧ liveGuards state = 1 ∧
    ∀ next, step .bits64 state (1, .advance) = some next →
      (dropsAt (next.pc 1) = true ∧ share next 1 = 1) ∨ next.word = unlocked ∨
        ∃ other, other ≠ 1 ∧ share next other = 1 := by
  obtain ⟨state, reach, ended⟩ := System.exists_reachable_of_run (machine (Fin 2) .bits64)
    (fun state => decide (state.pc 1 = .unlock ∧ share state 1 = 1 ∧ state.word ≠ unlocked ∧
      liveGuards state = 1)) ⟨fun _ => [], rfl⟩ (handedAndDropped 0 1) (by decide +kernel)
  obtain ⟨dropping, holds, locked, guard⟩ := of_decide_eq_true ended
  obtain ⟨count, -, -, passed⟩ := ownership reach
  refine ⟨state, reach, dropping, holds,
    by rw [count, if_neg locked], guard, fun next stepped => ?_⟩
  exact passed 1 next stepped (by rw [dropping]; rfl) holds

end Xutex.Mutex
