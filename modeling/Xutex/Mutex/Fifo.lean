/-
**The lock is handed over in the order of the queue, and nobody is left behind.**

A locker that loses links its node behind the others; the drop of a guard pops the front node and
signals it; the drop of a pending request unlinks its node. A `Line` takes down the tickets of the
nodes: drawn at the push, given up at the unlink, served when the node is signalled.

* `QueueOf` — the queue of the mutex: published, tagged, or filled behind `UPDATING`.
* `Flight` — the node that is popped and not yet signalled; there is at most one, for the guard that
  popped it was the only one.
* `handoff_in_order` — **while a node is linked the lock has an owner and every attempt to acquire
  it fails, and the nodes that are not unlinked are signalled in exactly the order in which they
  were pushed.**
-/

import Xutex.Concurrency.Line
import Xutex.Mutex.Word

set_option linter.unusedSectionVars false

namespace Xutex.Mutex

open Concurrency Discipline PointerWidth

variable {ι : Type} [DecidableEq ι]

/-! ### The queue of the mutex -/

/-- The queue of the mutex is published at `ptr`, tagged, or in the hands of a party that fills
it. -/
def QueueOf (width : PointerWidth) (state : State ι) (ptr : ℕ) : Prop :=
  width.IsQueue ptr ∧ (state.word = ptr ∨ state.word = tagPointer ptr ∨
    ∃ party, accessesAt (state.pc party) = some ptr ∨ storesAt (state.pc party) = some ptr)

section Queue

variable {width : PointerWidth} {state next : State ι} {status : Status ι} {party : ι}
  {ptr word : ℕ}

section

variable (described : Described width state status)
include described

/-- The queue of the mutex is the queue of the status. -/
theorem Described.queueOf (queue : QueueOf width state ptr) :
    status = .queue ptr ∨ ∃ party, status = .held party ptr := by
  obtain ⟨isQueue, published | tagged | ⟨party, accesses | stores⟩⟩ := queue
  · exact .inl (described.encodes.eq_queue isQueue published)
  · exact .inr (described.encodes.eq_held isQueue tagged)
  · exact .inr ⟨party, described.eq_of_statusAt (statusAt_of_accesses accesses)⟩
  · exact .inr ⟨party, described.eq_of_statusAt (statusAt_of_stores stores)⟩

theorem Described.entries_of_queueOf (queue : QueueOf width state ptr) :
    status.entries state.queues = state.queues ptr := by
  rcases described.queueOf queue with rfl | ⟨party, rfl⟩ <;> rfl

/-- Without a queue nothing is linked. -/
theorem Described.entries_of_none (none : ∀ ptr, ¬QueueOf width state ptr) :
    status.entries state.queues = [] := by
  cases status with
  | unlocked | locked | updating party => rfl
  | queue ptr => exact absurd ⟨described.encodes.1, .inl described.encodes.2⟩ (none ptr)
  | held party ptr =>
    have known : statusAt party (state.pc party) = some (.held party ptr) :=
      described.statusAt_holder rfl
    have here := described.known party
    revert known here
    cases source : state.pc party <;> simp only [statusAt, LocalAt, Option.some.injEq, reduceCtorEq,
      false_implies, Status.held.injEq, true_and] <;> rintro rfl
    case unlockFree => exact fun freed => freed.2
    all_goals
      refine absurd ⟨described.encodes.1, .inr (.inr ⟨party, ?_⟩)⟩ (none _)
      rw [source]
      first | exact .inl rfl | exact .inr rfl

/-- With a queue the mutex is locked. -/
theorem Described.locked_of_queueOf (queue : QueueOf width state ptr) :
    state.word ≠ unlocked := fun free => by
  obtain rfl := described.encodes.unlocked_iff.mp free
  rcases described.queueOf queue with same | ⟨party, same⟩ <;> cases same

end

/-- **Whoever tries to acquire a locked mutex fails**: no guard is made, and `try_lock` says so. -/
theorem acquire_refused (busy : state.word ≠ unlocked) (tries : acquiresAt (state.pc party) = true)
    (stepped : step width state (party, .advance) = some next) :
    next.word = state.word ∧ next.guards = state.guards ∧
      (state.pc party = .tryLock → next.outcome party = some .busy) := by
  cases source : state.pc party <;> simp only [source, acquiresAt, reduceCtorEq] at tries <;>
    simp only [step, advance, source, Option.some.injEq] at stepped <;> subst stepped
  case tryLock => rw [tryLock, if_neg busy]; exact ⟨rfl, rfl, fun _ => by simp⟩
  case lock => rw [lock, if_neg busy]; exact ⟨rfl, rfl, (by rintro ⟨⟩)⟩
  case pollLock => rw [pollLock, if_neg busy]; exact ⟨rfl, rfl, (by rintro ⟨⟩)⟩
  case contendLock => rw [contendLock, if_neg busy]; exact ⟨rfl, rfl, (by rintro ⟨⟩)⟩

end Queue

/-! ### The node in flight -/

/-- The nodes that are popped and not yet signalled. -/
structure Flight (state : State ι) (flight : List ι) : Prop where
  single : flight.length ≤ 1
  popped : ∀ node, node ∈ flight ↔ ∃ party, node ∈ chainOf (state.pc party)

section Flight

variable {state next : State ι} {flight : List ι} {party node : ι}

theorem Flight.same (inFlight : Flight state flight) (rest : ∀ other, other ≠ party →
      next.pc other = state.pc other)
    (chain : chainOf (next.pc party) = chainOf (state.pc party)) : Flight next flight := by
  refine ⟨inFlight.single, fun node => (inFlight.popped node).trans (exists_congr fun other => ?_)⟩
  by_cases self : other = party
  · rw [self, chain]
  · rw [rest other self]

/-- A node in flight is the only one. -/
theorem Flight.eq_singleton (inFlight : Flight state flight)
    (chain : node ∈ chainOf (state.pc party)) : flight = [node] := by
  have member := (inFlight.popped node).mpr ⟨party, chain⟩
  have short := inFlight.single
  match flight with
  | [] => cases member
  | [other] => rw [List.mem_singleton.mp member]
  | _ :: _ :: _ => simp at short

theorem Flight.pop (rest : ∀ other, other ≠ party → next.pc other = state.pc other)
    (inFlight : Flight state []) (chain : chainOf (next.pc party) = [node]) :
    Flight next [node] := by
  refine ⟨le_rfl, fun other => ?_⟩
  rw [List.mem_singleton]
  constructor
  · rintro rfl
    exact ⟨party, by rw [chain]; exact List.mem_singleton_self _⟩
  · rintro ⟨signaler, popped⟩
    by_cases self : signaler = party
    · rw [self, chain] at popped
      exact List.mem_singleton.mp popped
    · rw [rest signaler self] at popped
      cases (inFlight.popped other).mpr ⟨signaler, popped⟩

theorem Flight.land (inFlight : Flight state [node])
    (rest : ∀ other, other ≠ party → next.pc other = state.pc other)
    (alone : ∀ other, node ∈ chainOf (state.pc other) → other = party)
    (chain : chainOf (next.pc party) = []) : Flight next [] := by
  refine ⟨Nat.zero_le _, fun other => iff_of_false List.not_mem_nil ?_⟩
  rintro ⟨signaler, popped⟩
  by_cases self : signaler = party
  · simp [self, chain] at popped
  · rw [rest signaler self] at popped
    have same := List.mem_singleton.mp ((inFlight.popped other).mpr ⟨signaler, popped⟩)
    exact self (alone signaler (same ▸ popped))

end Flight

/-! ### The line of the mutex -/

/-- What the line takes down: a push draws a ticket, an unlink gives it up, a signal hands the lock
over. -/
def lineAfter (line : Line ι) (state : State ι) (label : Label ι) (_next : State ι) : Line ι :=
  match label.2, state.pc label.1 with
  | .advance, .push _ _ => line.draw label.1
  | .advance, .cancelRemove ptr => if label.1 ∈ state.queues ptr then line.giveUp label.1 else line
  | .advance, .signalPublish node => line.hand node
  | _, _ => line

variable [Fintype ι]

/-- **The line of the mutex is served in order**: first the node in flight, then the linked ones. -/
structure Lined (width : PointerWidth) (state : State ι) (line : Line ι) (status : Status ι)
    (flight : List ι) : Prop where
  owned : Owned width state status
  inFlight : Flight state flight
  inOrder : line.InOrder (flight ++ status.entries state.queues)

section Lined

variable {width : PointerWidth} {state next : State ι} {status status' : Status ι} {party : ι}
  {line : Line ι} {flight : List ι}

section

variable (lined : Lined width state line status flight)
include lined

/-- While a guard is being dropped, no node is in flight. -/
theorem Lined.nothing_in_flight (holds : share state party = 1)
    (free : chainOf (state.pc party) = []) : flight = [] := by
  by_contra present
  obtain ⟨node, member⟩ := List.exists_mem_of_ne_nil flight present
  obtain ⟨signaler, popped⟩ := (lined.inFlight.popped node).mp member
  have different : party ≠ signaler := fun same => by simp [← same, free] at popped
  have carries : poppedAt (state.pc signaler) = 1 := by
    revert popped
    cases state.pc signaler <;> simp [chainOf, poppedAt]
  have token : 1 ≤ share state signaler := by
    unfold share shareAt
    omega
  have both := two_shares_le_sum (share state) different
  have count := lined.owned.count
  have atMost : status.tokens ≤ 1 := by cases status <;> simp [Status.tokens]
  rw [tokens_eq] at count
  omega

/-- A step that leaves the linked nodes, the chains and the line alone. -/
theorem Lined.same {label : Label ι} (after : Owned width next status')
    (rest : ∀ other, other ≠ label.1 → next.pc other = state.pc other)
    (chain : chainOf (next.pc label.1) = chainOf (state.pc label.1))
    (entries : status'.entries next.queues = status.entries state.queues)
    (silent : lineAfter line state label next = line) :
    Lined width next (lineAfter line state label next) status' flight := by
  refine ⟨after, lined.inFlight.same rest chain, ?_⟩
  rw [silent, entries]
  exact lined.inOrder

/-- A node that is not given away is neither in flight nor linked. -/
theorem Lined.fresh (free : waitsAt (state.pc party) (state.signal party).value = false) :
    party ∉ flight ++ status.entries state.queues := by
  intro member
  have waits : waitsAt (state.pc party) (state.signal party).value = true := by
    rcases List.mem_append.mp member with flying | linked
    · obtain ⟨signaler, popped⟩ := (lined.inFlight.popped party).mp flying
      exact (lined.owned.waiting.popped popped).1
    · exact (lined.owned.waiting.queued linked).1
  rw [free] at waits
  cases waits

/-- **A step serves the line in order.** -/
theorem Lined.step {label : Label ι} (after : Owned width next status')
    (stepped : step width state label = some next) :
    ∃ flight', Lined width next (lineAfter line state label next) status' flight' := by
  have described := lined.owned.toDescribed
  have described' := after.toDescribed
  have rest (other : ι) (different : other ≠ label.1) := step_rest stepped different
  cases step_access stepped with
  | quiet word queues before locked chain untagged unclaimed silent =>
    have same : status' = status := described.same described' word fun other held =>
      rest other fun self => by simp [self, before] at held
    refine ⟨flight, lined.same after rest chain (by rw [same, queues]) ?_⟩
    obtain ⟨party, move⟩ := label
    cases move <;> try rfl
    cases source : state.pc party <;> simp [source, lockedAt] at before silent <;>
      simp [lineAfter, source]
  | @acquires party source free word queues locked chain =>
    obtain rfl := described.encodes.unlocked_iff.mp free
    obtain rfl := described'.encodes.eq_locked word
    have plain : chainOf (state.pc party) = [] ∧ lineAfter line state (party, .advance) next =
        line := by
      revert source
      cases at' : state.pc party <;> simp [acquiresAt, chainOf, lineAfter, at']
    exact ⟨flight, lined.same after rest (chain.trans plain.1.symm) rfl plain.2⟩
  | @claims party mode source found word queues target =>
    obtain rfl := described.encodes.eq_locked found
    obtain rfl : status' = .updating party := described'.eq_of_statusAt (by rw [target]; rfl)
    exact ⟨flight, lined.same after rest (by simp [target, source, chainOf]) rfl
      (by simp [lineAfter, source])⟩
  | @allocates party mode ptr source queue word queues target =>
    obtain rfl : status = .updating party := described.eq_of_statusAt (by rw [source]; rfl)
    obtain rfl : status' = .held party ptr := described'.eq_of_statusAt (by rw [target]; rfl)
    exact ⟨flight, lined.same after rest (by simp [target, source, chainOf])
      (by simp [Status.entries, queues]) (by simp [lineAfter])⟩
  | @tags party ptr source found word queues target =>
    obtain rfl := described.claims_queue source found
    obtain rfl : status' = .held party ptr :=
      described'.eq_of_statusAt (statusAt_of_accesses target)
    have empty : chainOf (next.pc party) = [] := by
      revert target
      cases next.pc party <;> simp [accessesAt, chainOf]
    have plain : chainOf (state.pc party) = [] ∧ lineAfter line state (party, .advance) next =
        line := by
      revert source
      cases at' : state.pc party <;> simp [tagsAt, chainOf, lineAfter, at']
    exact ⟨flight, lined.same after rest (empty.trans plain.1.symm) (by rw [queues]; rfl) plain.2⟩
  | @pushes party mode ptr source word queues target =>
    obtain rfl : status = .held party ptr := described.eq_of_statusAt (by rw [source]; rfl)
    obtain rfl : status' = .held party ptr := described'.eq_of_statusAt (by rw [target]; rfl)
    have fresh : party ∉ flight ++ Status.entries state.queues (.held party ptr) :=
      lined.fresh (by rw [source]; rfl)
    refine ⟨flight, after, lined.inFlight.same rest (by simp [target, source, chainOf]), ?_⟩
    have drawn := lined.inOrder.draw fresh
    rw [List.append_assoc] at drawn
    simpa [lineAfter, source, Status.entries, queues] using drawn
  | @removes party ptr source word queues target =>
    obtain rfl : status = .held party ptr := described.eq_of_statusAt (by rw [source]; rfl)
    obtain rfl : status' = .held party ptr := described'.eq_of_statusAt (by rw [target]; rfl)
    refine ⟨flight, after, lined.inFlight.same rest (by simp [target, source, chainOf]), ?_⟩
    by_cases member : party ∈ state.queues ptr
    · -- the node is linked, hence not in flight
      have apart : party ∉ flight := fun flying => by
        obtain ⟨signaler, popped⟩ := (lined.inFlight.popped party).mp flying
        exact (lined.owned.waiting.popped popped).2.2 member
      have gone := lined.inOrder.giveUp (List.mem_append_right flight member)
      rw [List.erase_append_right _ apart] at gone
      simpa [lineAfter, source, member, Status.entries, queues] using gone
    · simpa [lineAfter, source, member, Status.entries, queues, List.erase_of_not_mem member]
        using lined.inOrder
  | @pops party ptr node behind source front word queues target =>
    obtain rfl : status = .held party ptr := described.eq_of_statusAt (by rw [source]; rfl)
    obtain rfl : status' = .held party ptr := described'.eq_of_statusAt (by rw [target]; rfl)
    have holds : share state party = 1 := by
      simp [share, source, shareAt, droppingAt, poppedAt, signalledAt, waitsAt]
    obtain rfl := lined.nothing_in_flight holds (by rw [source]; rfl)
    refine ⟨[node], after, lined.inFlight.pop rest (by rw [target]; rfl), ?_⟩
    simpa [lineAfter, source, Status.entries, queues, front] using lined.inOrder
  | @empties party ptr source none word queues target =>
    obtain rfl : status = .held party ptr := described.eq_of_statusAt (by rw [source]; rfl)
    obtain rfl : status' = .held party ptr := described'.eq_of_statusAt (by rw [target]; rfl)
    exact ⟨flight, lined.same after rest (by simp [target, source, chainOf]) (by rw [queues])
      (by simp [lineAfter, source])⟩
  | @stores party ptr source word queues locked chain =>
    obtain rfl : status = .held party ptr := described.eq_of_statusAt (statusAt_of_stores source)
    obtain rfl := described.stored described' word
    have silent : lineAfter line state (party, .advance) next = line := by
      revert source
      cases at' : state.pc party <;> simp [storesAt, lineAfter, at']
    exact ⟨flight, lined.same after rest chain (by rw [queues]; rfl) silent⟩
  | @frees party ptr source word queues target =>
    obtain ⟨rfl, empty⟩ : status = .held party ptr ∧ state.queues ptr = [] := described.here source
    obtain rfl := described'.encodes.unlocked_iff.mp word
    exact ⟨flight, lined.same after rest (by simp [target, source, chainOf]) empty.symm
      (by simp [lineAfter, source])⟩
  | @unlocks party source found word queues target =>
    obtain rfl := described.encodes.eq_locked found
    obtain rfl := described'.encodes.unlocked_iff.mp word
    exact ⟨flight, lined.same after rest (by simp [target, source, chainOf]) rfl
      (by simp [lineAfter, source])⟩
  | @signals party node source word queues target =>
    have same : status' = status := described.same described' word fun other held =>
      rest other fun self => by simp [show other = party from self, source, lockedAt] at held
    have mine : node ∈ chainOf (state.pc party) := by
      rw [source]
      exact List.mem_singleton_self _
    obtain rfl := lined.inFlight.eq_singleton mine
    refine ⟨[], after, lined.inFlight.land rest (fun other popped => ?_) (by rw [target]; rfl), ?_⟩
    · exact lined.owned.waiting.placed.chain_unique other party node popped mine
    · rw [same, queues]
      simpa [lineAfter, source] using lined.inOrder.hand

end

end Lined

/-! ### The order of the hand-over -/

/-- The states of every run, with the line of the mutex. -/
abbrev LinedRuns (width : PointerWidth) : State ι → Line ι → Prop :=
  (machine ι width).ObservedBy Line.new lineAfter fun _ _ _ => True

/-- **The hand-over of the lock.** -/
structure HandedInOrder (width : PointerWidth) (state : State ι) (line : Line ι) : Prop where
  /-- While a node is linked, the lock has an owner, and whoever tries to acquire it fails. -/
  owner : ∀ ptr, QueueOf width state ptr → state.queues ptr ≠ [] →
    tokens state = 1 ∧ state.word ≠ unlocked ∧
    ∀ party next, acquiresAt (state.pc party) = true → step width state (party, .advance) =
      some next → next.word = state.word ∧ next.guards = state.guards ∧
        (state.pc party = .tryLock → next.outcome party = some .busy)
  /-- The pushes that were not taken back, in their order, are those that were handed the lock, in
  the order in which they were, then the one in flight, then those linked, front first. -/
  order : ∃ flight, Flight state flight ∧
    (∀ ptr, QueueOf width state ptr →
      line.kept = line.handed ++ (flight ++ state.queues ptr).map line.ticket) ∧
    ((∀ ptr, ¬QueueOf width state ptr) → line.kept = line.handed ++ flight.map line.ticket)

section Runs

variable {width : PointerWidth} {state : State ι} {line : Line ι}

theorem lined_of_reachable (reach : LinedRuns width state line) :
    ∃ status flight, Lined width state line status flight := by
  refine System.ReachableBy.observed
    (fun state line => ∃ status flight, Lined width state line status flight) ?_ ?_ reach
  · rintro _ ⟨queues, rfl⟩
    exact ⟨.unlocked, [], owned_start queues, ⟨Nat.zero_le _, fun _ => by simp [start, chainOf]⟩,
      .new⟩
  · rintro state line label next - ⟨status, flight, lined⟩ stepped -
    obtain ⟨status', owned'⟩ := step_keeps lined.owned stepped
    exact ⟨status', lined.step owned' stepped⟩

/-- **The lock is handed over in the order of the pushes, and nobody is left behind**, whatever the
number of threads and requests and whatever the interleaving of their steps. -/
theorem handoff_in_order (reach : LinedRuns width state line) : HandedInOrder width state line := by
  obtain ⟨status, flight, lined⟩ := lined_of_reachable reach
  have described := lined.owned.toDescribed
  refine ⟨fun ptr queue _ => ?_, flight, lined.inFlight, fun ptr queue => ?_, fun none => ?_⟩
  · have busy := described.locked_of_queueOf queue
    exact ⟨by rw [lined.owned.tokens_eq_word, if_neg busy], busy,
      fun party next tries stepped => acquire_refused busy tries stepped⟩
  · rw [← described.entries_of_queueOf queue]
    exact lined.inOrder.served
  · have served := lined.inOrder.served
    rwa [described.entries_of_none none, List.append_nil] at served

/-- `a` locks; requests of `b`, `c` and `d` are queued; `c` is dropped, and the guard is dropped
twice. -/
def inTurn {ι : Type} (a b c d : ι) : List (Label ι) := List.flatten
  [[(a, .tryLock), (a, .advance)],
    [(b, .create), (b, .poll 0), (b, .advance), (b, .advance), (b, .allocate 8), (b, .advance),
    (b, .advance)], [(c, .create), (c, .poll 0), (c, .advance), (c, .advance), (c, .advance),
    (c, .advance)], [(d, .create), (d, .poll 0), (d, .advance), (d, .advance), (d, .advance),
    (d, .advance)], [(c, .drop), (c, .advance), (c, .advance), (c, .advance), (c, .advance)],
    [(a, .dropGuard)], List.replicate 6 (a, .advance), [(b, .poll 0)], [(a, .dropGuard)],
    List.replicate 3 (a, .advance)]

/-- The first push was handed the lock, the second was taken back, and the third is in flight. -/
theorem handoff_in_order_inTurn : ∃ (state : State (Fin 4)) (line : Line (Fin 4)),
    LinedRuns .bits64 state line ∧ line.handed = [0] ∧ line.cancelled = [1] ∧ line.kept = [0, 2] ∧
    chainOf (state.pc 0) = [3] ∧ HandedInOrder .bits64 state line := by
  obtain ⟨state, line, reach, ended⟩ := System.exists_observed_of_run (machine (Fin 4) .bits64)
    Line.new lineAfter
    (fun state line => decide (line.handed = [0] ∧ line.cancelled = [1] ∧ line.kept = [0, 2] ∧
      chainOf (state.pc 0) = [3])) ⟨fun _ => [], rfl⟩ (inTurn 0 1 2 3) (by decide +kernel)
  obtain ⟨handed, cancelled, kept, flying⟩ := of_decide_eq_true ended
  exact ⟨state, line, reach, handed, cancelled, kept, flying, handoff_in_order reach⟩

end Runs

end Xutex.Mutex
