/-
**Who still has to serve the queue of a semaphore.**

The flag, the permit count and the queue change in separate steps. `Serviced` is what holds between
them:

* while a node is linked the flag is set, and a set flag with nothing linked is cleared before the
  tag-lock is free (`flagged`, `clean`);
* only the front node may have been served in part (`tail`);
* the front node misses more than the pool has, or somebody is on the way to a drain (`head`).
  `dutyAt` are the points with that duty: from the `fetch_add` of a release to the CAS of its drain,
  and the unlock of a cancelled wait that returns permits or uncovers a new front node.

A step outside of the tag-lock leaves the queue and the flag alone (`Aside`), so that what the
holder of the lock has read stays true up to permits that come with a duty (`Serviced.aside`); a
step under the lock is the only one that needs to look at the queue (`Serviced.held`).
-/

import Xutex.Semaphore.Conservation
import Xutex.Semaphore.Frames

set_option linter.unusedSectionVars false

namespace Xutex.Semaphore

open Concurrency Discipline

variable {ι γ : Type} [DecidableEq ι] [DecidableEq γ]

/-! ### Duties -/

/-- The party is going to look at the queue and the pool. -/
def dutyAt : Pc ι γ → Bool
  | .releaseAdd _ _ | .drainLock _ | .drainLoad _ | .drainCas _ _ => true
  | .unlock (.cancelFound granted headChanged) => decide (0 < granted) || headChanged
  | _ => false

/-- The party has the permits of the pool in its hands. -/
def servingAt : Pc ι γ → Bool
  | .drainServe _ _ => true
  | _ => false

/-- Somebody has the duty to drain. -/
def Relieved (state : State ι γ) : Prop := ∃ party, dutyAt (state.pc party) = true

/-- What the holder of the tag-lock knows at its point: about the flag, the linked nodes, the
`count` of the pool, its request of `n` and whether somebody has the duty to drain. -/
def PointAt (flag : Bool) (entries : List ι) (count n : ℕ) (relieved : Prop) : Pc ι γ → Prop
  | .unlockStore _ => entries = [] ∧ flag = false
  | .enqueueCas _ _ => flag = true
  | .enqueuePush _ => flag = true ∧ (entries = [] → count < n ∨ relieved)
  | .drainLoad _ | .drainCas _ _ => entries ≠ []
  | .drainServe _ _ => entries ≠ [] ∧ (count = 0 ∨ relieved)
  | .drainReturn _ _ _ => entries = []
  | _ => True

/-- `PointAt` of a party of a state. -/
def Point (state : State ι γ) (party : ι) (pc : Pc ι γ) : Prop :=
  PointAt (hasQueue state.pool) state.queue.entries (permits state.pool) (state.requested party)
    (Relieved state) pc

/-- **The front node cannot be served, or somebody will try.** -/
def HeadServed (state : State ι γ) : Prop :=
  ∀ front rest, state.queue.entries = front :: rest →
    permits state.pool < (state.signal front).aux ∨ Relieved state ∨
      ∃ party, servingAt (state.pc party) = true

/-- **The invariant of service.** -/
structure Serviced (state : State ι γ) : Prop where
  flagged : state.queue.entries ≠ [] → hasQueue state.pool = true
  clean : state.queue.holder = none → hasQueue state.pool = true → state.queue.entries ≠ []
  points : ∀ party, Point state party (state.pc party)
  tail : ∀ node ∈ state.queue.entries.tail, (state.signal node).aux = state.requested node
  head : HeadServed state

section Points

variable {flag : Bool} {entries : List ι} {count count' n : ℕ} {relieved relieved' : Prop}
  {pc : Pc ι γ}

/-- A party that does not hold the lock knows nothing. -/
theorem pointAt_free (free : lockedAt pc = false) : PointAt flag entries count n relieved pc := by
  cases pc <;> trivial

theorem pointAt_unlock {back : Unlock ι γ} (source : pc = .unlock back) :
    PointAt flag entries count n relieved pc := by
  rw [source]
  trivial

/-- What the holder has read stays true when permits are taken, or come with a duty. -/
theorem PointAt.mono (point : PointAt flag entries count n relieved pc)
    (flagged : entries ≠ [] → flag = true) (fewer : count' ≤ count ∨ (flag = true → relieved'))
    (still : flag = true → relieved → relieved') : PointAt flag entries count' n relieved' pc := by
  cases pc
  case enqueuePush mode =>
    refine ⟨point.1, fun empty => ?_⟩
    rcases point.2 empty with few | relief
    · exact fewer.imp few.trans_le' (· point.1)
    · exact .inr (still point.1 relief)
  case drainServe after available =>
    have set := flagged point.1
    refine ⟨point.1, ?_⟩
    rcases point.2 with none | relief
    · exact fewer.imp (fun less => Nat.le_zero.mp (none ▸ less)) (· set)
    · exact .inr (still set relief)
  all_goals exact point

theorem lockedAt_of_serving (serving : servingAt pc = true) : lockedAt pc = true := by
  cases pc <;> first | rfl | cases serving

end Points

/-! ### The two rules -/

section Rules

variable {width : PointerWidth} {state next : State ι γ} {party : ι} {pc : Pc ι γ}

/-- **A step of a party that does not hold the tag-lock**, as the holder sees it. The step may
acquire the lock. -/
structure Aside (state next : State ι γ) (party : ι) : Prop where
  entries : next.queue.entries = state.queue.entries
  holder : next.queue.holder = none → state.queue.holder = none
  flag : hasQueue next.pool = hasQueue state.pool
  pool : permits next.pool ≤ permits state.pool ∨
    (hasQueue state.pool = true → dutyAt (next.pc party) = true)
  duty : dutyAt (state.pc party) = true → hasQueue state.pool = true →
    state.queue.entries ≠ [] ∨ state.queue.holder ≠ none → dutyAt (next.pc party) = true
  point : lockedAt (next.pc party) = true → Point next party (next.pc party)

variable [Fintype ι]

/-- The duties of the others remain. -/
theorem relieved_other (moves : MovesFrom state next party pc) {other : ι}
    (different : other ≠ party) (duty : dutyAt (state.pc other) = true) : Relieved next := by
  obtain ⟨pc', moves⟩ := moves
  have rest : next.pc other = state.pc other := moves.rest different
  exact ⟨other, by rw [rest]; exact duty⟩

/-- The front node stays served when the queue stays. -/
theorem HeadServed.same (head : HeadServed state) (waiting : Waiting state)
    (moves : MovesFrom state next party pc) (passes : Passes width state next party)
    (entries : next.queue.entries = state.queue.entries)
    (pool : state.queue.entries ≠ [] →
      permits next.pool ≤ permits state.pool ∨ dutyAt (next.pc party) = true)
    (duty : state.queue.entries ≠ [] → dutyAt (state.pc party) = true →
      dutyAt (next.pc party) = true ∨ servingAt (next.pc party) = true)
    (serving : servingAt (state.pc party) = false) : HeadServed next := by
  intro front rest linked
  rw [entries] at linked
  have linkedAny : state.queue.entries ≠ [] := by simp [linked]
  have member : front ∈ state.queue.entries := by simp [linked]
  rcases head front rest linked with misses | ⟨other, busy⟩ | ⟨other, busy⟩
  · rw [(passes.given (waiting.queued member).1).1]
    rcases pool linkedAny with fewer | relief
    · exact .inl (fewer.trans_lt misses)
    · exact .inr (.inl ⟨party, relief⟩)
  · by_cases self : other = party
    · subst self
      exact .inr ((duty linkedAny busy).imp (⟨other, ·⟩) (⟨other, ·⟩))
    · exact .inr (.inl (relieved_other moves self busy))
  · have different : other ≠ party := by
      rintro rfl
      rw [serving] at busy
      cases busy
    obtain ⟨pc', moves⟩ := moves
    have unmoved : next.pc other = state.pc other := moves.rest different
    exact .inr (.inr ⟨other, by rw [unmoved]; exact busy⟩)

/-- The nodes behind the front one are untouched when the queue stays. -/
theorem Serviced.tail_same (serviced : Serviced state) (waiting : Waiting state)
    (passes : Passes width state next party) {entries : List ι}
    (kept : ∀ node ∈ entries, node ∈ state.queue.entries.tail) :
    ∀ node ∈ entries, (next.signal node).aux = next.requested node := by
  intro node member
  have linked : node ∈ state.queue.entries := List.mem_of_mem_tail (kept node member)
  obtain ⟨aux, request⟩ := passes.given (waiting.queued linked).1
  rw [aux, State.requested, request]
  exact serviced.tail node (kept node member)

/-- **The rule for steps outside of the lock.** -/
theorem Serviced.aside (serviced : Serviced state) (waiting : Waiting state)
    (moves : MovesFrom state next party (state.pc party)) (passes : Passes width state next party)
    (free : lockedAt (state.pc party) = false) (aside : Aside state next party) :
    Serviced next := by
  have still (flag : hasQueue state.pool = true)
      (busy : state.queue.entries ≠ [] ∨ state.queue.holder ≠ none) :
      Relieved state → Relieved next := by
    rintro ⟨other, duty⟩
    by_cases self : other = party
    · subst self
      exact ⟨other, aside.duty duty flag busy⟩
    · exact relieved_other moves self duty
  refine ⟨fun linked => ?_, fun open' flag => ?_, fun other => ?_, ?_, ?_⟩
  · rw [aside.entries] at linked
    rw [aside.flag]
    exact serviced.flagged linked
  · rw [aside.flag] at flag
    rw [aside.entries]
    exact serviced.clean (aside.holder open') flag
  · by_cases self : other = party
    · subst self
      cases locked : lockedAt (next.pc other) with
      | false => exact pointAt_free locked
      | true => exact aside.point locked
    · obtain ⟨pc', step⟩ := moves
      have unmoved : next.pc other = state.pc other := step.rest self
      rw [unmoved]
      cases locked : lockedAt (state.pc other) with
      | false => exact pointAt_free locked
      | true =>
        have holder : state.queue.holder = some other := (waiting.lock other).mp locked
        have busy : state.queue.holder ≠ none := by simp [holder]
        have point := serviced.points other
        rw [Point, aside.flag, aside.entries, State.requested, passes.request other self]
        exact point.mono serviced.flagged (aside.pool.imp id fun duty flag => ⟨party, duty flag⟩)
          fun flag => still flag (.inr busy)
  · rw [aside.entries]
    exact serviced.tail_same waiting passes fun _ => id
  · refine serviced.head.same waiting moves passes aside.entries (fun linked => ?_)
      (fun linked duty => .inl (aside.duty duty (serviced.flagged linked) (.inl linked))) ?_
    · exact aside.pool.imp id (· (serviced.flagged linked))
    · cases serving : servingAt (state.pc party) with
      | false => rfl
      | true => rw [lockedAt_of_serving serving] at free; cases free

/-- **The rule for steps under the lock**: nobody else has read anything. -/
theorem Serviced.held (waiting : Waiting state)
    (moves : MovesFrom state next party (state.pc party))
    (locked : lockedAt (state.pc party) = true)
    (flagged : next.queue.entries ≠ [] → hasQueue next.pool = true)
    (clean : next.queue.holder = none → hasQueue next.pool = true → next.queue.entries ≠ [])
    (point : Point next party (next.pc party))
    (tail : ∀ node ∈ next.queue.entries.tail, (next.signal node).aux = next.requested node)
    (head : HeadServed next) : Serviced next := by
  refine ⟨flagged, clean, fun other => ?_, tail, head⟩
  by_cases self : other = party
  · subst self
    exact point
  · obtain ⟨pc', moves⟩ := moves
    have unmoved : next.pc other = state.pc other := moves.rest self
    rw [unmoved]
    refine pointAt_free ?_
    cases taken : lockedAt (state.pc other) with
    | false => rfl
    | true =>
      have mine : state.queue.holder = some party := (waiting.lock party).mp locked
      have theirs : state.queue.holder = some other := (waiting.lock other).mp taken
      rw [mine] at theirs
      exact absurd (Option.some.inj theirs).symm self

end Rules

/-! ### Steps outside of the lock -/

section Outside

variable {width : PointerWidth} {state next : State ι γ} {party : ι} {after : After γ} {mode : Mode}

/-- A step that only takes permits out of the pool. -/
theorem Aside.take (waiting : Waiting state) (moves : MovesFrom state next party (state.pc party))
    (queue : next.queue = state.queue) (flag : hasQueue next.pool = hasQueue state.pool)
    (fewer : permits next.pool ≤ permits state.pool) (free : lockedAt (state.pc party) = false)
    (duty : dutyAt (state.pc party) = false) : Aside state next party where
  entries := by rw [queue]
  holder open' := by rw [← queue]; exact open'
  flag := flag
  pool := .inl fewer
  duty busy := by rw [duty] at busy; cases busy
  point locked := by
    obtain ⟨pc', moves⟩ := moves
    have holder : next.queue.holder = some party := ((waiting.step moves).lock party).mp locked
    rw [queue] at holder
    have held : lockedAt (state.pc party) = true := (waiting.lock party).mpr holder
    rw [free] at held
    cases held

/-- A step that touches neither the pool nor the queue. -/
theorem Aside.untouched (waiting : Waiting state)
    (moves : MovesFrom state next party (state.pc party))
    (untouched : Untouched state next) (free : lockedAt (state.pc party) = false)
    (duty : dutyAt (state.pc party) = false) : Aside state next party :=
  .take waiting moves untouched.queue (by rw [untouched.pool]) (by rw [untouched.pool]) free duty

theorem tryCas_aside {attempt : Attempt} {cur : ℕ} [Fintype ι] (ledger : Ledger width state)
    (source : state.pc party = .tryCas attempt cur)
    (moves : MovesFrom state (tryCas width state party attempt cur) party (state.pc party)) :
    Aside state (tryCas width state party attempt cur) party := by
  have free : lockedAt (state.pc party) = false := by rw [source]; rfl
  have duty : dutyAt (state.pc party) = false := by rw [source]; rfl
  have enough := (ledger.knownAt source).takes cur rfl
  revert moves
  unfold tryCas
  split
  · rename_i same
    intro moves
    have taken : Untouched { state with pool := takePermits cur (state.requested party) }
        (tryTaken { state with pool := takePermits cur (state.requested party) }
        party attempt) := by
      unfold tryTaken
      cases attempt <;> exact acquired_untouched
    refine .take ledger.waiting moves taken.queue ?_ ?_ free duty
    · rw [taken.pool, same]
      exact (flags_of_mod (takePermits_mod enough)).2
    · rw [taken.pool, same, takePermits_permits]
      exact Nat.sub_le _ _
  · intro moves
    exact .untouched ledger.waiting moves tryNext_untouched free duty

/-- **A release that finds the flag goes on to drain.** -/
theorem releaseAdd_aside {n : ℕ} [Fintype ι] (ledger : Ledger width state)
    (small : state.created ≤ maxPermits width + state.forgotten)
    (source : state.pc party = .releaseAdd n after) :
    Aside state (releaseAdd width state party n after) party := by
  have amount : shareAt (state.requested party) (state.signal party)
      (.releaseAdd n after : Pc ι γ) = n + after.permits := Nat.zero_add _
  have fits : permits state.pool + n ≤ maxPermits width := by
    have room := ledger.fits source small
    omega
  unfold releaseAdd
  dsimp only
  rw [if_pos (releaseFits_of_le fits)]
  split
  · have target : ({ state with pool := addPermits width state.pool n }.goto party
        (.drainLock after)).pc party = .drainLock after := Function.update_self _ _ _
    refine ⟨rfl, id, addPermits_hasQueue, .inr fun _ => ?_, fun _ _ _ => ?_, fun locked => ?_⟩
    · rw [target]
      rfl
    · rw [target]
      rfl
    · rw [target] at locked
      cases locked
  · rename_i unset
    have ends : Untouched { state with pool := addPermits width state.pool n }
        (finish { state with pool := addPermits width state.pool n } party after) :=
        finish_untouched
    have target :
        (finish { state with pool := addPermits width state.pool n } party after).pc party =
        finishPc after := by
      have pcs : (finish { state with pool := addPermits width state.pool n } party after).pc =
          Function.update state.pc party (finishPc after) := congrArg Waiters.pc finish_waiters
      rw [pcs, Function.update_self]
    refine ⟨by rw [ends.queue], by rw [ends.queue]; exact id,
      by rw [ends.pool]; exact addPermits_hasQueue, .inr fun flag => absurd flag unset,
      fun _ flag => absurd flag unset, fun locked => ?_⟩
    rw [target] at locked
    cases after <;> cases locked

/-- A party that tries the lock: it is absent, or acquired with the nodes as they were. -/
theorem Aside.lock {alloc : Bool} {locked : WaitQueue ι} {pc' : Pc ι γ}
    (acquired : state.queue.lock party alloc = .acquired locked)
    (duty : dutyAt (state.pc party) = true → dutyAt pc' = true)
    (point : (alloc = false → state.queue.entries ≠ []) →
      Point ({ state with queue := locked }.goto party pc') party pc') :
    Aside state ({ state with queue := locked }.goto party pc') party := by
  obtain ⟨free, rfl, linked⟩ := WaitQueue.lock_acquired acquired
  have target :
      ({ state with queue := ⟨some party, state.queue.entries⟩ }.goto party pc').pc party = pc' :=
    Function.update_self _ _ _
  refine ⟨rfl, (by rintro ⟨⟩), rfl, .inl le_rfl, fun busy _ _ => ?_, fun _ => ?_⟩
  · rw [target]
    exact duty busy
  · rw [target]
    exact point linked

theorem drainLock_aside (source : state.pc party = .drainLock after)
    (stepped : drainLock state party after = some next) : Aside state next party := by
  unfold drainLock at stepped
  split at stepped <;> cases stepped
  · rename_i absent
    obtain ⟨free, empty, -⟩ := WaitQueue.lock_absent absent
    have ends : Untouched state (finish state party after) := finish_untouched
    have target : (finish state party after).pc party = finishPc after := by
      have pcs : (finish state party after).pc = Function.update state.pc party (finishPc after) :=
        congrArg Waiters.pc finish_waiters
      rw [pcs, Function.update_self]
    refine ⟨by rw [ends.queue], by rw [ends.queue]; exact id, by rw [ends.pool],
      .inl (by rw [ends.pool]), fun _ _ busy => ?_, fun locked => ?_⟩
    · rcases busy with linked | held
      · exact absurd empty linked
      · exact absurd free held
    · rw [target] at locked
      cases after <;> cases locked
  · rename_i acquired
    refine .lock acquired (fun _ => rfl) fun linked => ?_
    obtain ⟨-, rfl, -⟩ := WaitQueue.lock_acquired acquired
    exact linked rfl

theorem enqueueLock_aside (source : state.pc party = .enqueueLock mode)
    (stepped : enqueueLock state party mode = some next) : Aside state next party := by
  unfold enqueueLock at stepped
  split at stepped <;> cases stepped
  rename_i acquired
  refine .lock acquired (fun busy => ?_) fun _ => trivial
  rw [source] at busy
  cases busy

/-- `lock(false)` of a call that goes on elsewhere when there is no queue. -/
theorem lock_aside {pc pc' : Pc ι γ} {result : Option (State ι γ)}
    (stepped : result = some next)
    (found : result = match state.queue.lock party false with
      | .spin => none
      | .absent => some (state.goto party pc)
      | .acquired locked => some ({ state with queue := locked }.goto party pc'))
    (free : lockedAt pc = false) (duty : dutyAt (state.pc party) = false)
    (point : ∀ after, Point after party pc') : Aside state next party := by
  subst found
  split at stepped <;> cases stepped
  · have target : (state.goto party pc).pc party = pc := Function.update_self _ _ _
    refine ⟨rfl, id, rfl, .inl le_rfl, fun busy => ?_, fun locked => ?_⟩
    · rw [duty] at busy
      cases busy
    · rw [target, free] at locked
      cases locked
  · rename_i acquired
    refine .lock acquired (fun busy => ?_) fun _ => point _
    rw [duty] at busy
    cases busy

theorem closeFlag_aside (waiting : Waiting state) (source : state.pc party = .closeFlag)
    (moves : MovesFrom state (closeFlag state party) party (state.pc party)) :
    Aside state (closeFlag state party) party := by
  have queue : (closeFlag state party).queue = state.queue := by
    unfold closeFlag
    dsimp only
    split
    · rfl
    · split <;> rfl
  have pool : (closeFlag state party).pool = setClosed state.pool := by
    unfold closeFlag
    dsimp only
    split
    · rfl
    · split <;> rfl
  refine .take waiting moves queue ?_ ?_ (by rw [source]; rfl) (by rw [source]; rfl)
  · rw [pool, setClosed_hasQueue]
  · rw [pool, setClosed_permits]

theorem forgetCas_aside {n cur : ℕ} (waiting : Waiting state)
    (source : state.pc party = .forgetCas n cur)
    (moves : MovesFrom state (forgetCas state party n cur) party (state.pc party)) :
    Aside state (forgetCas state party n cur) party := by
  have free : lockedAt (state.pc party) = false := by rw [source]; rfl
  have duty : dutyAt (state.pc party) = false := by rw [source]; rfl
  revert moves
  unfold forgetCas
  split
  · rename_i same
    intro moves
    refine .take waiting moves rfl ?_ ?_ free duty
    · exact same ▸ (flags_of_mod (takePermits_mod (min_le_left _ _))).2
    · show permits (takePermits cur _) ≤ permits state.pool
      rw [takePermits_permits, same]
      exact Nat.sub_le _ _
  · intro moves
    exact .untouched waiting moves forgetNext_untouched free duty

end Outside

/-! ### Steps under the lock -/

section Locked

variable [Fintype ι] {width : PointerWidth} {state next : State ι γ} {party : ι} {pc' : Pc ι γ}
  {after : After γ} {mode : Mode}

section

variable (serviced : Serviced state) (waiting : Waiting state)
include serviced waiting

/-- A step under the lock that leaves the queue. -/
theorem Serviced.heldSame (moves : MovesFrom state next party (state.pc party))
    (passes : Passes width state next party) (locked : lockedAt (state.pc party) = true)
    (queue : next.queue = state.queue) (target : next.pc party = pc')
    (flagged : state.queue.entries ≠ [] → hasQueue next.pool = true) (point : Point next party pc')
    (pool : state.queue.entries ≠ [] → permits next.pool ≤ permits state.pool)
    (duty : state.queue.entries ≠ [] → dutyAt (state.pc party) = true → dutyAt pc' = true ∨
      servingAt pc' = true)
    (serving : servingAt (state.pc party) = false) : Serviced next := by
  have holder : state.queue.holder = some party := (waiting.lock party).mp locked
  refine .held waiting moves locked ?_ (fun open' => ?_) ?_ ?_ ?_
  · rw [queue]
    exact flagged
  · rw [queue, holder] at open'
    cases open'
  · rw [target]
    exact point
  · rw [queue]
    exact serviced.tail_same waiting passes fun _ => id
  · refine serviced.head.same waiting moves passes (by rw [queue])
      (fun linked => .inl (pool linked)) ?_ serving
    rw [target]
    exact duty

/-- Both ways on from a read of `drain`: the pool is empty, or the whole of it is to be taken. -/
theorem drainTake_serviced
    (moves : MovesFrom state (state.goto party (drainTake after state.pool)) party (state.pc party))
    (passes : Passes width state (state.goto party (drainTake after state.pool)) party)
    (locked : lockedAt (state.pc party) = true) (linked : state.queue.entries ≠ [])
    (serving : servingAt (state.pc party) = false) :
    Serviced (state.goto party (drainTake after state.pool)) := by
  refine serviced.heldSame waiting moves passes locked rfl (Function.update_self _ _ _)
    serviced.flagged ?_ (fun _ => le_rfl) (fun _ _ => ?_) serving
  · unfold drainTake
    split
    · rename_i none
      exact ⟨linked, .inl none⟩
    · exact linked
  · unfold drainTake
    split
    · exact .inr rfl
    · exact .inl rfl

theorem drainCas_serviced {cur : ℕ} (source : state.pc party = .drainCas after cur)
    (moves : MovesFrom state (drainCas state party after cur) party (state.pc party))
    (passes : Passes width state (drainCas state party after cur) party) :
    Serviced (drainCas state party after cur) := by
  have locked : lockedAt (state.pc party) = true := by rw [source]; rfl
  have serving : servingAt (state.pc party) = false := by rw [source]; rfl
  have linked : state.queue.entries ≠ [] := by
    have point := serviced.points party
    rw [source] at point
    exact point
  revert moves passes
  unfold drainCas
  split
  · rename_i same
    intro moves passes
    refine serviced.heldSame waiting moves passes locked rfl (Function.update_self _ _ _)
      (fun _ => ?_) ⟨linked, .inl takeAll_permits⟩ (fun _ => ?_) (fun _ _ => .inr rfl) serving
    · show hasQueue (takeAll cur) = true
      rw [takeAll_hasQueue, ← same]
      exact serviced.flagged linked
    · show permits (takeAll cur) ≤ _
      rw [takeAll_permits]
      exact Nat.zero_le _
  · intro moves passes
    exact drainTake_serviced serviced waiting moves passes locked linked serving

theorem drainReturn_serviced {available : ℕ} {chain : List ι}
    (source : state.pc party = .drainReturn after available chain)
    (moves : MovesFrom state (drainReturn width state party after available chain) party
      (state.pc party))
    (passes : Passes width state (drainReturn width state party after available chain) party) :
    Serviced (drainReturn width state party after available chain) := by
  have empty : state.queue.entries = [] := by
    have point := serviced.points party
    rw [source] at point
    exact point
  refine serviced.heldSame waiting moves passes (by rw [source]; rfl) rfl
    (Function.update_self _ _ _)
    (absurd empty) trivial (absurd empty) (absurd empty) (by rw [source]; rfl)

/-- The three ways on from a read of `enqueue_or_acquire`, with the flag set. -/
theorem enqueueNext_serviced {pool : ℕ} (flag : hasQueue pool = true)
    (kept : permits pool = permits state.pool)
    (moves : MovesFrom state ({ state with pool := pool }.goto party
      (enqueueNext state party mode pool)) party (state.pc party))
    (passes : Passes width state
      ({ state with pool := pool }.goto party (enqueueNext state party mode pool)) party)
    (locked : lockedAt (state.pc party) = true) (duty : dutyAt (state.pc party) = false)
    (serving : servingAt (state.pc party) = false) :
    Serviced ({ state with pool := pool }.goto party (enqueueNext state party mode pool)) := by
  refine serviced.heldSame waiting moves passes locked rfl (Function.update_self _ _ _)
    (fun _ => flag) ?_ (fun _ => kept.le) (fun _ busy => ?_) serving
  · unfold enqueueNext
    split
    · trivial
    · split
      · exact flag
      · rename_i refuses
        refine ⟨flag, fun empty => .inl ?_⟩
        simp only [Bool.and_eq_true, decide_eq_true_eq, not_and, not_le,
          List.isEmpty_iff] at refuses
        exact refuses empty
  · rw [duty] at busy
    cases busy

end

theorem enqueueCas_serviced {cur : ℕ} (serviced : Serviced state) (ledger : Ledger width state)
    (source : state.pc party = .enqueueCas mode cur)
    (moves : MovesFrom state (enqueueCas state party mode cur) party (state.pc party))
    (passes : Passes width state (enqueueCas state party mode cur) party) :
    Serviced (enqueueCas state party mode cur) := by
  have locked : lockedAt (state.pc party) = true := by rw [source]; rfl
  have duty : dutyAt (state.pc party) = false := by rw [source]; rfl
  have serving : servingAt (state.pc party) = false := by rw [source]; rfl
  have enough := (ledger.knownAt source).takes cur rfl
  have flag : hasQueue state.pool = true := by
    have point := serviced.points party
    rw [source] at point
    exact point
  revert moves passes
  unfold enqueueCas
  split
  · rename_i same
    intro moves passes
    refine serviced.heldSame ledger.waiting moves passes locked rfl (Function.update_self _ _ _)
      (fun _ => ?_) trivial (fun _ => ?_) (fun _ busy => ?_) serving
    · rw [same] at flag
      exact (flags_of_mod (takePermits_mod enough)).2.trans flag
    · show permits (takePermits cur _) ≤ permits state.pool
      rw [takePermits_permits, same]
      exact Nat.sub_le _ _
    · rw [duty] at busy
      cases busy
  · intro moves passes
    exact enqueueNext_serviced serviced ledger.waiting flag rfl moves passes locked duty serving

/-- **The push**: a node that becomes the front one misses more than the pool has, or somebody
drains. -/
theorem enqueuePush_serviced (serviced : Serviced state) (ledger : Ledger width state)
    (source : state.pc party = .enqueuePush mode)
    (moves : MovesFrom state (enqueuePush state party mode) party (state.pc party))
    (passes : Passes width state (enqueuePush state party mode) party) :
    Serviced (enqueuePush state party mode) := by
  have locked : lockedAt (state.pc party) = true := by rw [source]; rfl
  have holder : state.queue.holder = some party := (ledger.waiting.lock party).mp locked
  have whole : (state.signal party).aux = state.requested party := (ledger.knownAt source).armed rfl
  have point := serviced.points party
  rw [source] at point
  obtain ⟨flag, few⟩ := point
  have relieved (relief : Relieved state) : Relieved (enqueuePush state party mode) := by
    obtain ⟨other, busy⟩ := relief
    refine relieved_other moves ?_ busy
    rintro rfl
    rw [source] at busy
    cases busy
  refine .held ledger.waiting moves locked (fun _ => flag) (fun open' => ?_) ?_ ?_ ?_
  · have kept : (enqueuePush state party mode).queue.holder = some party := holder
    rw [kept] at open'
    cases open'
  · rw [show (enqueuePush state party mode).pc party = .unlock
      (.enqueued mode state.queue.entries.isEmpty) from Function.update_self _ _ _]
    trivial
  · intro node member
    have later : node ∈ state.queue.entries.tail ∨ node = party := by
      have member : node ∈ (state.queue.entries ++ [party]).tail := member
      cases entries : state.queue.entries with
      | nil => simp [entries] at member
      | cons front rest => simpa [entries] using member
    rcases later with earlier | rfl
    · exact serviced.tail node earlier
    · exact whole
  · intro front rest linked
    have linked : state.queue.entries ++ [party] = front :: rest := linked
    cases entries : state.queue.entries with
    | nil =>
      rw [entries] at linked
      obtain rfl : party = front := (List.cons.inj linked).1
      rcases few entries with misses | relief
      · exact .inl (whole ▸ misses)
      · exact .inr (.inl (relieved relief))
    | cons first others =>
      rw [entries] at linked
      obtain rfl : first = front := (List.cons.inj linked).1
      rcases serviced.head first others entries with misses | relief | ⟨other, busy⟩
      · exact .inl misses
      · exact .inr (.inl (relieved relief))
      · have same : other = party :=
          ledger.waiting.lock_unique (lockedAt_of_serving busy) locked
        rw [same, source] at busy
        cases busy

/-- **The drain** leaves a front node that misses permits, with the pool empty or a release behind
it. -/
theorem drainServe_serviced {available : ℕ} (serviced : Serviced state) (waiting : Waiting state)
    (source : state.pc party = .drainServe after available)
    (moves : MovesFrom state (drainServe state party after available) party (state.pc party)) :
    Serviced (drainServe state party after available) := by
  have locked : lockedAt (state.pc party) = true := by rw [source]; rfl
  have holder : state.queue.holder = some party := (waiting.lock party).mp locked
  have point := serviced.points party
  rw [source] at point
  obtain ⟨linked, empty⟩ := point
  have popped := serve_entries state.queue.entries state.signal available
  refine .held waiting moves locked (fun _ => serviced.flagged linked) (fun open' => ?_) ?_ ?_ ?_
  · have kept : (drainServe state party after available).queue.holder = some party := holder
    rw [kept] at open'
    cases open'
  · rw [show (drainServe state party after available).pc party = servePc after _ _ from
      Function.update_self _ _ _]
    unfold servePc
    split
    · rename_i unused
      show (serve state.queue.entries state.signal available).rest = []
      cases rest : (serve state.queue.entries state.signal available).rest with
      | nil => rfl
      | cons front others =>
        have none := (serve_rest _ _ _ rest).1
        omega
    · trivial
  · intro node member
    have distinct : state.queue.entries.Nodup := waiting.placed.queue_nodup
    have member : node ∈ (serve state.queue.entries state.signal available).rest.tail := member
    have behind : node ∈ state.queue.entries.tail := by
      rw [popped]
      cases chain : (serve state.queue.entries state.signal available).chain with
      | nil => exact member
      | cons first others => exact List.mem_append_right _ (List.mem_of_mem_tail member)
    exact (serve_tail _ _ _ distinct member).trans (serviced.tail node behind)
  · intro front rest left
    have misses := (serve_rest state.queue.entries state.signal available left).2
    rcases empty with none | ⟨other, busy⟩
    · refine .inl ?_
      show permits state.pool < _
      rw [none]
      exact misses
    · refine .inr (.inl (relieved_other moves ?_ busy))
      rintro rfl
      rw [source] at busy
      cases busy

/-- The end of a cancelled wait keeps its duty. -/
theorem unlocked_duty {back : Unlock ι γ} (duty : dutyAt (.unlock back : Pc ι γ) = true) :
    dutyAt ((unlocked state party back).pc party) = true := by
  cases back with
  | cancelFound granted headChanged =>
    simp only [dutyAt, Bool.or_eq_true, decide_eq_true_eq] at duty
    unfold unlocked
    dsimp only
    split
    · rename_i some
      rw [release, if_neg (Nat.pos_iff_ne_zero.mp some)]
      simp [dutyAt]
    · rename_i none
      rw [if_pos (duty.resolve_left none)]
      simp [dutyAt]
  | acquired | closed | enqueued | drained | closing | cancelMissing => cases duty

section

variable (serviced : Serviced state) (waiting : Waiting state)
include serviced waiting

/-- **The end of every critical section**: the flag says whether nodes are linked. -/
theorem unlocked_serviced {back : Unlock ι γ}
    (settled : hasQueue state.pool = true → state.queue.entries ≠ [])
    (moves : MovesFrom state (unlocked { state with queue := state.queue.unlock } party back) party
      (state.pc party))
    (passes : Passes width state (unlocked { state with queue := state.queue.unlock } party back)
      party)
    (locked : lockedAt (state.pc party) = true)
    (duty : dutyAt (state.pc party) = true → dutyAt (.unlock back : Pc ι γ) = true)
    (serving : servingAt (state.pc party) = false) :
    Serviced (unlocked { state with queue := state.queue.unlock } party back) := by
  have ends : Untouched { state with queue := state.queue.unlock }
      (unlocked { state with queue := state.queue.unlock } party back) := unlocked_untouched
  have entries : (unlocked { state with queue := state.queue.unlock } party back).queue.entries =
      state.queue.entries := by rw [ends.queue]; rfl
  refine .held waiting moves locked ?_ (fun _ => ?_) (pointAt_free ?_) ?_ ?_
  · rw [entries, ends.pool]
    exact serviced.flagged
  · rw [entries, ends.pool]
    exact settled
  · obtain ⟨pc', moves⟩ := moves
    cases held : lockedAt
      ((unlocked { state with queue := state.queue.unlock } party back).pc party) with
    | false => rfl
    | true =>
      have holder : (unlocked { state with queue := state.queue.unlock } party back).queue.holder =
          some party := ((waiting.step moves).lock party).mp held
      rw [ends.queue] at holder
      cases holder
  · rw [entries]
    exact serviced.tail_same waiting passes fun _ => id
  · exact serviced.head.same waiting moves passes entries (fun _ => .inl (by rw [ends.pool]))
      (fun _ busy => .inl (unlocked_duty (duty busy))) serving

theorem unlock_serviced {back : Unlock ι γ} (source : state.pc party = .unlock back)
    (moves : MovesFrom state (unlock width state party back) party (state.pc party))
    (passes : Passes width state (unlock width state party back) party) :
    Serviced (unlock width state party back) := by
  have locked : lockedAt (state.pc party) = true := by rw [source]; rfl
  have serving : servingAt (state.pc party) = false := by rw [source]; rfl
  revert moves passes
  unfold unlock
  split
  · rename_i none
    intro moves passes
    have empty : state.queue.entries = [] := List.isEmpty_iff.mp none
    exact serviced.heldSame waiting moves passes locked rfl (Function.update_self _ _ _)
      (absurd empty) ⟨empty, clearQueue_hasQueue⟩ (absurd empty) (absurd empty) serving
  · rename_i some
    intro moves passes
    refine unlocked_serviced serviced waiting (fun _ empty => ?_) moves passes locked
      (fun busy => ?_) serving
    · exact some (by rw [empty]; rfl)
    · rw [source] at busy
      exact busy

theorem unlockStore_serviced {back : Unlock ι γ} (source : state.pc party = .unlockStore back)
    (moves : MovesFrom state (unlocked { state with queue := state.queue.unlock } party back) party
      (state.pc party))
    (passes : Passes width state (unlocked { state with queue := state.queue.unlock } party back)
      party) :
    Serviced (unlocked { state with queue := state.queue.unlock } party back) := by
  have point := serviced.points party
  rw [source] at point
  refine unlocked_serviced serviced waiting (fun flag => ?_) moves passes (by rw [source]; rfl)
    (fun busy => ?_) (by rw [source]; rfl)
  · rw [point.2] at flag
    cases flag
  · rw [source] at busy
    cases busy

/-- **The cancellation**: a new front node is looked at by the one who uncovered it. -/
theorem cancelRemove_serviced (source : state.pc party = .cancelRemove)
    (moves : MovesFrom state (cancelRemove state party) party (state.pc party))
    (passes : Passes width state (cancelRemove state party) party) :
    Serviced (cancelRemove state party) := by
  have locked : lockedAt (state.pc party) = true := by rw [source]; rfl
  have serving : servingAt (state.pc party) = false := by rw [source]; rfl
  have holder : state.queue.holder = some party := (waiting.lock party).mp locked
  revert moves passes
  unfold cancelRemove
  dsimp only
  split
  · rename_i member
    intro moves passes
    have linked : state.queue.entries ≠ [] := List.ne_nil_of_mem member
    obtain ⟨first, others, entries⟩ := List.exists_cons_of_ne_nil linked
    have tails : ∀ node ∈ (state.queue.entries.erase party).tail,
        node ∈ state.queue.entries.tail := by
      intro node later
      rw [entries] at later ⊢
      by_cases same : first = party
      · subst same
        rw [List.erase_cons_head] at later
        exact List.mem_of_mem_tail later
      · rw [List.erase_cons_tail (by simpa using same)] at later
        exact List.mem_of_mem_erase later
    refine .held waiting moves locked (fun _ => serviced.flagged linked) (fun open' => ?_) ?_
      (serviced.tail_same waiting passes tails) ?_
    · have kept : (state.queue.remove party).holder = some party := holder
      exact absurd (kept.symm.trans open') (by simp)
    · exact pointAt_unlock (Function.update_self _ _ _)
    · intro front rest left
      have left : state.queue.entries.erase party = front :: rest := left
      by_cases head : state.queue.entries.head? = some party
      · refine .inr (.inl ⟨party, ?_⟩)
        simp [dutyAt, head, left]
      · have different : first ≠ party := by
          rintro rfl
          rw [entries] at head
          exact head rfl
        rw [entries, List.erase_cons_tail (by simpa using different)] at left
        obtain rfl : first = front := (List.cons.inj left).1
        rcases serviced.head first others entries with misses | ⟨other, busy⟩ | ⟨other, busy⟩
        · exact .inl misses
        · refine .inr (.inl (relieved_other moves ?_ busy))
          rintro rfl
          rw [source] at busy
          cases busy
        · have same : other = party := waiting.lock_unique (lockedAt_of_serving busy) locked
          rw [same, serving] at busy
          cases busy
  · intro moves passes
    refine serviced.heldSame waiting moves passes locked rfl (Function.update_self _ _ _)
      serviced.flagged trivial (fun _ => le_rfl) (fun _ busy => ?_) serving
    rw [source] at busy
    cases busy

end

theorem closePop_serviced (waiting : Waiting state) (source : state.pc party = .closePop)
    (moves : MovesFrom state (closePop state party) party (state.pc party)) :
    Serviced (closePop state party) := by
  have locked : lockedAt (state.pc party) = true := by rw [source]; rfl
  have holder : state.queue.holder = some party := (waiting.lock party).mp locked
  refine .held waiting moves locked (absurd rfl) (fun open' => ?_) ?_
    (fun node member => absurd member List.not_mem_nil) (by rintro _ _ ⟨⟩)
  · exact absurd (holder.symm.trans open') (by simp)
  · exact pointAt_unlock (Function.update_self _ _ _)

end Locked

end Xutex.Semaphore
