/-
**A closed semaphore stays closed, and its queue is emptied once.**

The call of `close` that sets `CLOSED` is the only one that goes on to the queue; it pops every
linked node under the tag-lock. An enqueuer that has read the word before may still link a node, but
not after the closer has had the lock: whoever links a node has read the word under the lock.

* `Sealed` — **the invariant**: once the bit is set, the closer has still to drain the queue, or the
  queue is empty and nobody is about to link a node; there is one closer.
* `sealed_of_reachable` — it holds in every reachable state.
* `Leaves` — how a node leaves the queue of a closed semaphore: by its owner's cancellation, by the
  grant of a drain before the closer has had the lock, or popped by the closer (`Sealed.leaves`).
-/

import Xutex.Semaphore.Order

set_option linter.unusedSectionVars false

namespace Xutex.Semaphore

open Concurrency Discipline

variable {ι γ : Type} [DecidableEq ι] [DecidableEq γ]

/-! ### The closer -/

/-- The closer has still to empty the queue. -/
def drainsAt : Pc ι γ → Bool
  | .closeLock | .closePop => true
  | _ => false

/-- The enqueuer has read the word and may link its node. -/
def linksAt : Pc ι γ → Bool
  | .enqueueCas _ _ | .enqueuePush _ => true
  | _ => false

/-- **Closing is under way or done.** -/
structure Sealed (state : State ι γ) : Prop where
  shut : isClosed state.pool = true → (∃ closer, drainsAt (state.pc closer) = true) ∨
    (state.queue.entries = [] ∧ ∀ party, linksAt (state.pc party) = false)
  alone : ∀ {closer other}, closingAt (state.pc closer) = true → closingAt (state.pc other) = true →
    closer = other

section Points

variable {width : PointerWidth} {state next : State ι γ} {party : ι} {pc : Pc ι γ}

theorem drainsAt_cases (drains : drainsAt pc = true) : pc = .closeLock ∨ pc = .closePop := by
  cases pc <;> first | exact .inl rfl | exact .inr rfl | cases drains

theorem closingAt_of_drains (drains : drainsAt pc = true) : closingAt pc = true := by
  cases pc <;> first | rfl | cases drains

theorem lockedAt_of_links (links : linksAt pc = true) : lockedAt pc = true := by
  cases pc <;> first | rfl | cases links

theorem entersAt_of_closing (closing : closingAt pc = true) : entersAt pc = true := by
  cases pc <;> first | exact closing | rfl

theorem entersAt_of_links (links : linksAt pc = true) : entersAt pc = true := by
  cases pc <;> first | rfl | cases links

theorem Linked.closed_of_closing (linked : Linked width state)
    (closing : closingAt (state.pc party) = true) : isClosed state.pool = true :=
  (guardAt_closing closing).mp (linked.guards party)

theorem Linked.flag_of_links (linked : Linked width state)
    (links : linksAt (state.pc party) = true) : hasQueue state.pool = true := by
  have guard := linked.guards party
  cases source : state.pc party <;> rw [source] at links guard
  case enqueueCas => exact guard.2.2.2.1
  case enqueuePush => exact guard.2
  all_goals cases links

/-- Who is inside of the closing call was there before, or has just set the bit. -/
theorem advance_closing (stepped : advance width state party = some next)
    (closing : closingAt (next.pc party) = true) :
    closingAt (state.pc party) = true ∨ state.pc party = .closeFlag ∧
      isClosed state.pool = false := by
  cases advance_enters stepped (entersAt_of_closing closing) with
  | tries attempt target opened vacant enough =>
    rw [target] at closing
    cases closing
  | admitted mode target small armed =>
    rw [target] at closing
    cases closing
  | locks mode source target =>
    rw [target] at closing
    cases closing
  | flags mode source target =>
    rw [target, enqueueNext] at closing
    split at closing
    · cases closing
    · split at closing <;> cases closing
  | retries mode cur source target =>
    rw [target, enqueueNext] at closing
    split at closing
    · cases closing
    · split at closing <;> cases closing
  | closes source opened target => exact .inr ⟨source, opened⟩
  | closing source target => exact .inl source

/-- Nobody comes to link a node who has not read an open word. -/
theorem advance_links (stepped : advance width state party = some next)
    (closed : isClosed state.pool = true) (links : linksAt (next.pc party) = true) : False := by
  have refuses (mode : Mode) (cur : ℕ) (shut : isClosed cur = true) :
      linksAt (enqueueNext state party mode cur : Pc ι γ) = false := by
    rw [enqueueNext, if_pos shut]
    rfl
  cases advance_enters stepped (entersAt_of_links links) with
  | tries attempt target opened vacant enough =>
    rw [target] at links
    cases links
  | admitted mode target small armed =>
    rw [target] at links
    cases links
  | locks mode source target =>
    rw [target] at links
    cases links
  | flags mode source target =>
    rw [target, refuses mode _ (setQueue_isClosed.trans closed)] at links
    cases links
  | retries mode cur source target =>
    rw [target, refuses mode _ closed] at links
    cases links
  | closes source opened target =>
    rw [target] at links
    cases links
  | closing source target =>
    revert target links
    cases next.pc party <;> simp [closingAt, linksAt]

end Points

/-! ### Every step keeps it -/

section Steps

variable {width : PointerWidth} {n : ℕ} {state next : State ι γ} {party : ι}

/-- Nobody else has the lock. -/
theorem Linked.nobody_links (linked : Linked width state) {holder : ι}
    (held : state.queue.holder = some holder)
    {other : ι} (different : other ≠ holder) : linksAt (state.pc other) = false := by
  cases links : linksAt (state.pc other) with
  | false => rfl
  | true =>
    have mine : state.queue.holder = some other :=
      (linked.kept.lock other).mp (lockedAt_of_links links)
    rw [held] at mine
    exact absurd (Option.some.inj mine).symm different

/-- The bit is set: the flag of the old word says whether there is a queue to drain. -/
theorem closeFlag_sealed (linked : Linked width state) (opened : isClosed state.pool = false)
    (rest : ∀ other, other ≠ party → (closeFlag state party).pc other = state.pc other) :
    (∃ closer, drainsAt ((closeFlag state party).pc closer) = true) ∨
      (state.queue.entries = [] ∧ ∀ other, linksAt ((closeFlag state party).pc other) = false) := by
  cases flag : hasQueue state.pool with
  | true => exact .inl ⟨party, by simp [closeFlag, opened, flag, drainsAt]⟩
  | false =>
    refine .inr ⟨?_, fun other => ?_⟩
    · by_contra linkedNodes
      rw [linked.flagged linkedNodes] at flag
      cases flag
    · by_cases self : other = party
      · subst self
        simp [closeFlag, opened, flag, linksAt]
      · rw [rest other self]
        cases links : linksAt (state.pc other) with
        | false => rfl
        | true =>
          rw [linked.flag_of_links links] at flag
          cases flag

/-- The closer takes the lock of the queue, or finds that there is none. -/
theorem closeLock_sealed (linked : Linked width state) (stepped : closeLock state party = some next)
    (rest : ∀ other, other ≠ party → next.pc other = state.pc other) :
    (∃ closer, drainsAt (next.pc closer) = true) ∨
      (next.queue.entries = [] ∧ ∀ other, linksAt (next.pc other) = false) := by
  unfold closeLock at stepped
  split at stepped <;> cases stepped <;> rename_i result
  · obtain ⟨free, empty, -⟩ := WaitQueue.lock_absent result
    refine .inr ⟨empty, fun other => ?_⟩
    by_cases self : other = party
    · subst self
      simp [linksAt]
    · rw [rest other self]
      cases links : linksAt (state.pc other) with
      | false => rfl
      | true =>
        have mine : state.queue.holder = some other :=
          (linked.kept.lock other).mp (lockedAt_of_links links)
        rw [free] at mine
        cases mine
  · exact .inl ⟨party, by simp [drainsAt]⟩

theorem advance_sealed (sealed : Sealed state) (linked : Linked width state)
    (stepped : advance width state party = some next) : Sealed next := by
  have shared := advance_shared stepped
  have moves := advance_masked linked stepped
  have rest (other : ι) (different : other ≠ party) : next.pc other = state.pc other :=
    moves.rest different
  -- a closing party was closing before, or it has set the bit and nobody else had
  have closers {other : ι} (closing : closingAt (next.pc other) = true) :
      closingAt (state.pc other) = true ∨ other = party ∧ isClosed state.pool = false := by
    by_cases self : other = party
    · subst self
      exact (advance_closing stepped closing).imp id fun opened => ⟨rfl, opened.2⟩
    · exact .inl (rest other self ▸ closing)
  refine ⟨fun closed => ?_, fun {closer other} first second => ?_⟩
  · rcases Bool.eq_false_or_eq_true (isClosed state.pool) with before | opened
    · rcases sealed.shut before with ⟨closer, drains⟩ | ⟨empty, nobody⟩
      · by_cases self : closer = party
        · subst self
          rcases drainsAt_cases drains with source | source
          · simp only [advance, source] at stepped
            exact closeLock_sealed linked stepped rest
          · simp only [advance, source, Option.some.injEq] at stepped
            subst stepped
            have locked : lockedAt (state.pc closer) = true := by rw [source]; rfl
            have held : state.queue.holder = some closer := (linked.kept.lock closer).mp locked
            refine .inr ⟨rfl, fun other => ?_⟩
            by_cases self : other = closer
            · subst self
              simp [closePop, linksAt]
            · rw [rest other self]
              exact linked.nobody_links held self
        · exact .inl ⟨closer, by rw [rest closer self]; exact drains⟩
      · refine .inr ⟨?_, fun other => ?_⟩
        · rw [shared.queue]
          rcases queueAfter_entries state party (state.pc party) with ⟨mode, source⟩ | fewer
          · have idle := nobody party
            rw [source] at idle
            cases idle
          · rw [empty] at fewer
            exact List.sublist_nil.mp fewer
        · by_cases self : other = party
          · subst self
            exact Bool.eq_false_iff.mpr fun links => advance_links stepped before links
          · rw [rest other self]
            exact nobody other
    · rcases poolAfter_isClosed (linked.guards party) with same | ⟨source, -⟩
      · rw [shared.pool, same, opened] at closed
        cases closed
      · simp only [advance, source, Option.some.injEq] at stepped
        subst stepped
        have queue : (closeFlag state party).queue = state.queue := by
          rw [shared.queue, source]
          rfl
        rw [queue]
        exact closeFlag_sealed linked opened rest
  · rcases closers first with inside | ⟨rfl, opened⟩
    · rcases closers second with inside' | ⟨-, opened⟩
      · exact sealed.alone inside inside'
      · rw [linked.closed_of_closing inside] at opened
        cases opened
    · rcases closers second with inside | ⟨rfl, -⟩
      · rw [linked.closed_of_closing inside] at opened
        cases opened
      · rfl

theorem begin_sealed {move : Move γ} (sealed : Sealed state)
    (stepped : begin width state party move = some next) : Sealed next := by
  have moves := begin_masked stepped
  have leaves := begin_leaves stepped
  obtain ⟨pool, queue⟩ := begin_untouched stepped
  have drains (other : ι) (drains : drainsAt (state.pc other) = true) :
      drainsAt (next.pc other) = true := by
    rw [moves.rest ?_]
    · exact drains
    · rintro rfl
      rcases begin_rests stepped with source | source <;> rw [source] at drains <;> cases drains
  have links (other : ι) (none : linksAt (state.pc other) = false) :
      linksAt (next.pc other) = false := by
    by_cases self : other = party
    · subst self
      exact Bool.eq_false_iff.mpr fun links => by
        rw [entersAt_of_links links] at leaves; cases leaves
    · rw [moves.rest self]
      exact none
  have closers {other : ι} (closing : closingAt (next.pc other) = true) :
      closingAt (state.pc other) = true := by
    rw [← moves.rest ?_]
    · exact closing
    · rintro rfl
      rw [entersAt_of_closing closing] at leaves
      cases leaves
  refine ⟨fun closed => ?_, fun first second => sealed.alone (closers first) (closers second)⟩
  rw [pool] at closed
  rw [queue]
  exact (sealed.shut closed).imp (fun ⟨closer, inside⟩ => ⟨closer, drains closer inside⟩)
    fun ⟨empty, nobody⟩ => ⟨empty, fun other => links other (nobody other)⟩

/-- **The invariant holds in every state of every run.** -/
theorem sealed_of_reachable {allowed : State ι γ → Label ι γ → State ι γ → Prop}
    (reach : (machine ι γ width n).ReachableBy allowed state) : Sealed state := by
  refine reach.invariant Sealed ?_ ?_
  · rintro _ ⟨-, kind, rfl⟩
    refine ⟨fun closed => ?_, never⟩
    rw [show isClosed (start n kind : State ι γ).pool = false from newPool_isClosed] at closed
    cases closed
  · intro state label next before sealed stepped _
    unfold machine step at stepped
    dsimp only at stepped
    split at stepped
    · exact advance_sealed sealed (linked_of_reachable before) stepped
    · exact begin_sealed sealed stepped

end Steps

/-! ### The queue of a closed semaphore -/

section Closed

variable {width : PointerWidth} {state next : State ι γ} {party node : ι} {label : Label ι γ}

/-- **How a node leaves the queue of a closed semaphore.** -/
inductive Leaves (state next : State ι γ) (node : ι) : Label ι γ → Prop
  /-- Its owner cancels. -/
  | cancelled (source : state.pc node = .cancelRemove) : Leaves state next node (node, .advance)
  /-- A drain grants it what it asks for; the closer waits for the lock. -/
  | granted {server closer : ι} {after : After γ} {available : ℕ}
      (source : state.pc server = .drainServe after available)
      (popped : node ∈ (serve state.queue.entries state.signal available).chain)
      (before : state.pc closer = .closeLock) : Leaves state next node (server, .advance)
  /-- The closer pops it, to be signalled with `SIGNAL_CLOSED`. -/
  | closed {closer : ι} (source : state.pc closer = .closePop)
      (target : next.pc closer = .unlock (.closing state.queue.entries)) :
      Leaves state next node (closer, .advance)

/-- Three program points unlink nodes. -/
theorem queueAfter_unlinks {pc : Pc ι γ} (member : node ∈ state.queue.entries)
    (gone : node ∉ (queueAfter state party pc).entries) :
    (pc = .cancelRemove ∧ node = party) ∨ pc = .closePop ∨
    ∃ after available, pc = .drainServe after available ∧
      node ∈ (serve state.queue.entries state.signal available).chain := by
  cases pc
  case cancelRemove =>
    refine .inl ⟨rfl, ?_⟩
    by_contra different
    exact gone ((List.mem_erase_of_ne different).mpr member)
  case closePop => exact .inr (.inl rfl)
  case drainServe after available =>
    refine .inr (.inr ⟨after, available, rfl, ?_⟩)
    rw [serve_entries state.queue.entries state.signal available, List.mem_append] at member
    exact member.resolve_right gone
  case drainLock | cancelLock | closeLock =>
    rw [queueAfter, lockAfter_entries] at gone
    exact absurd member gone
  case enqueuePush mode => exact absurd (List.mem_append_left _ member) gone
  case unlock back =>
    refine absurd ?_ gone
    simp only [queueAfter]
    split <;> exact member
  all_goals exact absurd member gone

/-- A drain that pops a node of a closed semaphore has the lock the closer waits for. -/
theorem Sealed.leaves (sealed : Sealed state) (linked : Linked width state)
    (closed : isClosed state.pool = true)
    (stepped : step width state label = some next) (member : node ∈ state.queue.entries)
    (gone : node ∉ next.queue.entries) : Leaves state next node label := by
  obtain ⟨party, move⟩ := label
  unfold step at stepped
  split at stepped
  · rename_i isAdvance
    obtain rfl : move = .advance := isAdvance
    rw [(advance_shared stepped).queue] at gone
    rcases queueAfter_unlinks member gone with ⟨source, rfl⟩ | source | ⟨after, available, source,
      popped⟩
    · exact .cancelled source
    · refine .closed source ?_
      simp only [advance, source, Option.some.injEq] at stepped
      subst stepped
      exact Function.update_self ..
    · rcases sealed.shut closed with ⟨closer, drains⟩ | ⟨empty, -⟩
      · rcases drainsAt_cases drains with waiting | inside
        · exact .granted source popped waiting
        · -- both would have the lock
          have first : lockedAt (state.pc closer) = true := by rw [inside]; rfl
          have second : lockedAt (state.pc party) = true := by rw [source]; rfl
          have same : closer = party := linked.kept.lock_unique first second
          rw [same, source] at inside
          cases inside
      · rw [empty] at member
        cases member
  · rw [(begin_untouched stepped).2] at gone
    exact absurd member gone

/-- **A closed semaphore gives nothing from its pool.** -/
theorem Linked.closed_takes_nothing (linked : Linked width state)
    (closed : isClosed state.pool = true)
    (acquires : acquiresAt (state.pc party) = true)
    (stepped : advance width state party = some next) : permits next.pool = permits state.pool := by
  have shared := advance_shared stepped
  have guard := linked.guards party
  have changed {cur : ℕ} (opened : isClosed cur = false) : state.pool ≠ cur := by
    rintro rfl
    rw [opened] at closed
    cases closed
  rw [shared.pool]
  cases source : state.pc party <;> simp only [source, acquiresAt, Bool.false_eq_true] at acquires
  case tryLoad | enqueueLock | enqueuePush => rfl
  case enqueueFlag => exact setQueue_permits
  case tryCas attempt cur =>
    rw [source] at guard
    rw [poolAfter, if_neg (changed guard.1)]
  case enqueueCas mode cur =>
    rw [source] at guard
    rw [poolAfter, if_neg (changed guard.2.1)]

end Closed

end Xutex.Semaphore
