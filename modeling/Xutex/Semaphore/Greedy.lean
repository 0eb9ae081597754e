/-
**The semaphore and its reference model.**

The calls are those of `Concurrency.Event`: a request enters with the first poll of a new
`acquire_many(n)`, it leaves when its future or its permit is dropped, and permits are added. Each
call runs to completion before the next one begins (`perform`). The reference model is
`Concurrency.Admission`: the live requests in the order in which they entered and the permits there
are, of which the longest front part that fits is granted.

* `Standing` — what the semaphore is between two calls: the granted requests and the queued ones,
  with the permits of the front node, which may have been served in part. `owed` permits are in the
  hands of the call that runs.
* `serve_line`, `standing_drain`, `standing_release` — a drain moves a front part of the queue to
  the granted requests, and then the next request does not fit.
* `between_add`, `between_enter`, `between_leave` — one call; `between_calls`: any sequence of
  calls.
* `semaphore_greedy` — **the requests granted, the queue and the permits are those of the reference
  model.**
-/

import Xutex.Concurrency.Admission
import Xutex.Semaphore.Sequential

set_option linter.unusedSectionVars false

namespace Xutex.Semaphore

open Concurrency

variable {κ : Type} [DecidableEq κ] {width : PointerWidth}

/-! ### The calls -/

/-- One call, run to completion: `some who` is the future of the request of `who`, `none` the thread
that adds permits. Who leaves drops the future; if it has returned the permit, the permit is dropped
too. -/
def perform (width : PointerWidth) (wakers : κ → Waker) (fuel : ℕ) (state : State (Option κ) κ) :
    Event κ → Option (State (Option κ) κ)
  | .enter who size =>
    (call width fuel (some who) (.create ⟨who, size⟩) state).bind
      (call width fuel (some who) (.poll (wakers who)))
  | .leave who =>
    if state.held.contains (state.request (some who)) then
      (call width fuel (some who) .drop state).bind
        (call width fuel (some who) (.dropPermit (state.request (some who))))
    else call width fuel (some who) .drop state
  | .add more => call width fuel none (.addPermits more) state

/-- One call after the other. -/
def performAll (width : PointerWidth) (wakers : κ → Waker) (fuel : ℕ) (state : State (Option κ) κ)
    (calls : List (Event κ)) : Option (State (Option κ) κ) :=
  calls.foldlM (perform width wakers fuel) state

/-! ### Between two calls -/

/-- The future of a request, and its node. -/
abbrev node (request : κ × ℕ) : Option κ := some request.1

theorem mem_map_node {who : κ} {line : List (κ × ℕ)} :
    some who ∈ line.map node ↔ who ∈ line.map Prod.fst := by
  simp [node]

/-- A request that is not in the line has another node. -/
theorem node_ne {who : κ} {line : List (κ × ℕ)} (apart : who ∉ line.map Prod.fst) {request : κ × ℕ}
    (member : request ∈ line) : node request ≠ some who := by
  intro same
  cases same
  exact apart (List.mem_map_of_mem member)

/-- The permits the front node was served: `n - aux`. -/
def assigned (signal : Option κ → Signal) : List (κ × ℕ) → ℕ
  | [] => 0
  | front :: _ => front.2 - (signal (node front)).aux

@[simp] theorem assigned_nil (signal : Option κ → Signal) : assigned signal [] = 0 := rfl

@[simp] theorem assigned_cons (signal : Option κ → Signal) (front : κ × ℕ) (rest : List (κ × ℕ)) :
    assigned signal (front :: rest) = front.2 - (signal (node front)).aux := rfl

theorem assigned_congr {signal signal' : Option κ → Signal} {queued : List (κ × ℕ)}
    (same : ∀ request ∈ queued.head?, (signal' (node request)).aux = (signal (node request)).aux) :
    assigned signal' queued = assigned signal queued := by
  cases queued with
  | nil => rfl
  | cons front rest => rw [assigned_cons, assigned_cons, same front rfl]

/-- Nothing is assigned to a node that misses its whole request. -/
theorem assigned_whole {signal : Option κ → Signal} {queued : List (κ × ℕ)}
    (whole : ∀ request ∈ queued, (signal (node request)).aux = request.2) :
    assigned signal queued = 0 := by
  cases queued with
  | nil => rfl
  | cons front rest => rw [assigned_cons, whole front List.mem_cons_self, Nat.sub_self]

/-- The request is linked and waits. -/
structure Pending (state : State (Option κ) κ) (request : κ × ℕ) : Prop where
  future : state.pc (node request) = .future
  asked : state.request (node request) = ⟨request.1, request.2⟩
  waits : (state.signal (node request)).value = .initWaiting

/-- The request has its permits: its future was told so, or has returned the permit. -/
structure Satisfied (state : State (Option κ) κ) (request : κ × ℕ) : Prop where
  future : state.pc (node request) = .future
  asked : state.request (node request) = ⟨request.1, request.2⟩
  served : (state.signal (node request)).value = .signaled ∨
    (state.signal (node request)).value = .returned ∧ ⟨request.1, request.2⟩ ∈ state.held

/-- The front node misses more permits than the pool has. -/
def Blocked (state : State (Option κ) κ) (queued : List (κ × ℕ)) : Prop :=
  ∀ request ∈ queued.head?, permits state.pool < (state.signal (node request)).aux

/-- **The semaphore between two calls**, or in a call that has `owed` permits to release. -/
structure Standing (state : State (Option κ) κ) (total : ℕ) (granted queued : List (κ × ℕ))
    (owed : ℕ) : Prop where
  distinct : ((granted ++ queued).map Prod.fst).Nodup
  satisfied : ∀ request ∈ granted, Satisfied state request
  pending : ∀ request ∈ queued, Pending state request
  others : ∀ party, party ∉ (granted ++ queued).map node → state.pc party = .idle
  linked : state.queue = ⟨none, queued.map node⟩
  opened : isClosed state.pool = false
  flagged : hasQueue state.pool = true ↔ queued ≠ []
  whole : ∀ request ∈ queued.tail, (state.signal (node request)).aux = request.2
  short : ∀ request ∈ queued.head?, (state.signal (node request)).aux ≤ request.2
  held : ∀ permit ∈ state.held, ∃ request ∈ granted, permit = ⟨request.1, request.2⟩ ∧
    (state.signal (node request)).value = .returned
  once : state.held.Nodup
  count : permits state.pool + assigned state.signal queued + demand granted + owed = total

section Frames

variable {state next : State (Option κ) κ} {request : κ × ℕ}

/-- The two states have the same future of the request, with the same node. -/
def SameAt (state next : State (Option κ) κ) (request : κ × ℕ) : Prop :=
  next.pc (node request) = state.pc (node request) ∧
    next.request (node request) = state.request (node request) ∧
    next.signal (node request) = state.signal (node request)

theorem Pending.frame (pending : Pending state request) (same : SameAt state next request) :
    Pending next request := by
  obtain ⟨pc, asked, signal⟩ := same
  exact ⟨pc.trans pending.future, asked.trans pending.asked, by rw [signal]; exact pending.waits⟩

theorem Satisfied.frame (satisfied : Satisfied state request) (same : SameAt state next request)
    (kept : ⟨request.1, request.2⟩ ∈ state.held → ⟨request.1, request.2⟩ ∈ next.held) :
    Satisfied next request := by
  obtain ⟨pc, asked, signal⟩ := same
  refine ⟨pc.trans satisfied.future, asked.trans satisfied.asked, ?_⟩
  rw [signal]
  exact satisfied.served.imp id fun returned => ⟨returned.1, kept returned.2⟩

end Frames

/-! ### Draining -/

/-- What `serve` leaves of a queue: a front part is popped, and the next request does not fit. -/
structure Serves (signal : Option κ → Signal) (available : ℕ) (queued popped rest : List (κ × ℕ))
    (served : Served (Option κ)) : Prop where
  split : queued = popped ++ rest
  chain : served.chain = popped.map node
  linked : served.rest = rest.map node
  count : served.available + assigned served.signal rest + demand popped =
    available + assigned signal queued
  whole : ∀ request ∈ rest.tail, (served.signal (node request)).aux = request.2
  short : ∀ request ∈ rest.head?, (served.signal (node request)).aux ≤ request.2
  blocked : ∀ request ∈ rest.head?, served.available < (served.signal (node request)).aux

/-- **The loop of `drain` serves a front part of the queue.** The first node may miss less than its
request, every later one misses all of it. -/
theorem serve_line (queued : List (κ × ℕ)) (signal : Option κ → Signal) (available : ℕ)
    (distinct : (queued.map Prod.fst).Nodup)
    (whole : ∀ request ∈ queued.tail, (signal (node request)).aux = request.2)
    (short : ∀ request ∈ queued.head?, (signal (node request)).aux ≤ request.2) :
    ∃ popped rest, Serves signal available queued popped rest
      (serve (queued.map node) signal available) := by
  induction queued generalizing signal available with
  | nil => exact ⟨[], [], rfl, rfl, rfl, rfl, by simp, by simp, by simp⟩
  | cons front rest ih =>
    obtain ⟨apart, distinctRest⟩ := List.nodup_cons.mp distinct
    have bound := short front rfl
    have kept (written : Signal) {request : κ × ℕ} (member : request ∈ rest) :
        (Function.update signal (node front) written (node request)).aux = request.2 := by
      rw [Function.update_of_ne (node_ne apart member)]
      exact whole request member
    simp only [List.map_cons, serve]
    split
    · rename_i few
      refine ⟨[], front :: rest, ?_⟩
      split
      · refine ⟨rfl, rfl, rfl, ?_, fun request member => kept _ member, ?_, ?_⟩
        · simp only [assigned_cons, demand_nil, Function.update_self, Signal.setAux_aux]
          omega
        · rintro request ⟨⟩
          simp only [Function.update_self, Signal.setAux_aux]
          omega
        · rintro request ⟨⟩
          simp only [Function.update_self, Signal.setAux_aux]
          omega
      · refine ⟨rfl, rfl, rfl, by simp, whole, short, ?_⟩
        rintro request ⟨⟩
        omega
    · rename_i enough
      -- behind the front every node misses its whole request, so nothing is assigned to the next
      have next : assigned (Function.update signal (node front) ((signal (node front)).setAux 0))
          rest = 0 :=
        assigned_whole fun request member => kept _ member
      obtain ⟨popped, left, serves⟩ := ih
        (Function.update signal (node front) ((signal (node front)).setAux 0))
        (available - (signal (node front)).aux) distinctRest
        (fun request member => kept _ (List.mem_of_mem_tail member))
        (fun request member => (kept _ (List.mem_of_mem_head? member)).le)
      have count := serves.count
      rw [next] at count
      refine ⟨front :: popped, left,
        by rw [serves.split, List.cons_append], by rw [serves.chain, List.map_cons],
        serves.linked, ?_, serves.whole, serves.short, serves.blocked⟩
      simp only [assigned_cons, demand_cons]
      omega

/-! ### Draining and releasing -/

section Calls

variable {state : State (Option κ) κ} {total owed : ℕ} {granted queued : List (κ × ℕ)}
  {party : Option κ}

theorem goto_idle (rests : state.pc party = .idle) : state.goto party .idle = state := by
  have same : Function.update state.pc party .idle = state.pc := by
    rw [← rests]
    exact Function.update_eq_self party state.pc
  rw [State.goto, same]

/-- The call ends with a front part of the queue granted, and then the next request does not fit. -/
def Settles (width : PointerWidth) (party : Option κ) (state : State (Option κ) κ) (total : ℕ)
    (granted queued : List (κ × ℕ)) : Prop :=
  ∃ popped rest target, queued = popped ++ rest ∧ Completes width party state target ∧
    Standing target total (granted ++ popped) rest 0 ∧ Blocked target rest

/-- **A drain moves a front part of the queue to the granted requests**, and the next request does
not fit. -/
theorem standing_drain (standing : Standing state total granted queued 0) (present : queued ≠ [])
    (rests : state.pc party = .idle) (limit : total ≤ maxPermits width) :
    Settles width party (state.goto party (.drainLock .done)) total granted queued := by
  have distinct := standing.distinct
  rw [List.map_append, List.nodup_append] at distinct
  obtain ⟨popped, rest, serves⟩ := serve_line queued state.signal (permits state.pool) distinct.2.1
    standing.whole standing.short
  have count := standing.count
  have small : permits state.pool ≤ maxPermits width := by omega
  obtain ⟨pool, left, closed, flag, completes⟩ := completes_drain party standing.linked
    (by simpa using present) small
    (rfl : serve (queued.map node) state.signal (permits state.pool) = _)
  have values := serve_value (queued.map node) state.signal (permits state.pool)
  generalize serve (queued.map node) state.signal (permits state.pool) = served at *
  obtain rfl := serves.split
  have distinctQueue := distinct.2.1
  rw [List.map_append, List.nodup_append] at distinctQueue
  let drained : State (Option κ) κ := { state with
    pool := pool, queue := ⟨none, served.rest⟩, signal := signalled served.chain served.signal }
  have resting : drained.goto party .idle = drained := goto_idle rests
  have unpopped {request : κ × ℕ} (member : request ∈ granted ∨ request ∈ rest) :
      (drained.signal (node request)).value = (state.signal (node request)).value := by
    have outside : node request ∉ served.chain := by
      rw [serves.chain, mem_map_node]
      intro inside
      rcases member with before | later
      · exact distinct.2.2 _ (List.mem_map_of_mem before) _
          (by rw [List.map_append]; exact List.mem_append_left _ inside) rfl
      · exact distinctQueue.2.2 _ inside _ (List.mem_map_of_mem later) rfl
    show (signalled served.chain served.signal (node request)).value = _
    rw [signalled_value, if_neg outside, values]
  refine ⟨popped, rest, drained, rfl, resting ▸ completes, ?_, ?_⟩
  · refine ⟨?_, ?_, ?_, ?_, ?_, ?_, ?_, ?_, ?_, ?_, ?_, ?_⟩
    · rw [List.append_assoc]
      exact standing.distinct
    · intro request member
      rcases List.mem_append.mp member with before | now
      · obtain ⟨future, asked, served⟩ := standing.satisfied request before
        exact ⟨future, asked, by rw [unpopped (.inl before)]; exact served⟩
      · obtain ⟨future, asked, -⟩ := standing.pending request (List.mem_append_left _ now)
        refine ⟨future, asked, .inl ?_⟩
        show (signalled served.chain served.signal (node request)).value = _
        rw [signalled_value, if_pos (by rw [serves.chain]; exact List.mem_map_of_mem now)]
    · intro request member
      obtain ⟨future, asked, waits⟩ := standing.pending request (List.mem_append_right _ member)
      exact ⟨future, asked, by rw [unpopped (.inr member)]; exact waits⟩
    · rw [List.append_assoc]
      exact standing.others
    · show (⟨none, served.rest⟩ : WaitQueue (Option κ)) = _
      rw [serves.linked]
    · exact closed.trans standing.opened
    · show hasQueue pool = true ↔ _
      rw [flag, standing.flagged.mpr present, serves.linked]
      simp
    · intro request member
      show (signalled served.chain served.signal (node request)).aux = _
      rw [signalled_aux]
      exact serves.whole request member
    · intro request member
      show (signalled served.chain served.signal (node request)).aux ≤ _
      rw [signalled_aux]
      exact serves.short request member
    · intro permit member
      obtain ⟨request, before, same, returned⟩ := standing.held permit member
      exact ⟨request, List.mem_append_left _ before, same,
        by rw [unpopped (.inl before)]; exact returned⟩
    · exact standing.once
    · have front : assigned drained.signal rest = assigned served.signal rest :=
        assigned_congr fun request _ => signalled_aux ..
      have balance := serves.count
      show permits pool + _ + _ + _ = total
      rw [front, demand_append]
      omega
  · intro request member
    show permits pool < (signalled served.chain served.signal (node request)).aux
    rw [signalled_aux, left]
    exact serves.blocked request member

/-- Only the pool and the history change. -/
theorem Standing.refill (standing : Standing state total granted queued owed)
    (pool created total' owed' : ℕ)
    (closed : isClosed pool = isClosed state.pool) (flag : hasQueue pool = hasQueue state.pool)
    (count : permits pool + assigned state.signal queued + demand granted + owed' = total') :
    Standing { state with pool := pool, created := created } total' granted queued owed' where
  distinct := standing.distinct
  satisfied request member :=
    have satisfied := standing.satisfied request member
    ⟨satisfied.future, satisfied.asked, satisfied.served⟩
  pending request member :=
    have pending := standing.pending request member
    ⟨pending.future, pending.asked, pending.waits⟩
  others := standing.others
  linked := standing.linked
  opened := closed.trans standing.opened
  flagged := by
    show hasQueue pool = true ↔ _
    rw [flag]
    exact standing.flagged
  whole := standing.whole
  short := standing.short
  held := standing.held
  once := standing.once
  count := count

/-- **A release leaves no request in front of the queue that fits.** A release of nothing does
nothing. -/
theorem standing_release (standing : Standing state total granted queued owed)
    (rests : state.pc party = .idle)
    (limit : total ≤ maxPermits width) (unserved : owed = 0 → Blocked state queued) :
    Settles width party (release state party owed .done) total granted queued := by
  have count := standing.count
  by_cases nothing : owed = 0
  · subst nothing
    refine ⟨[], queued, state, rfl, ?_, by rw [List.append_nil]; exact standing, unserved rfl⟩
    rw [release, if_pos rfl, finish, goto_idle rests]
    exact .refl (by rw [rests]; rfl)
  · have fits : permits state.pool + owed ≤ maxPermits width := by omega
    rw [release, if_neg nothing]
    let added : State (Option κ) κ := { state with pool := addPermits width state.pool owed }
    have full : Standing added total granted queued 0 :=
      standing.refill (addPermits width state.pool owed) state.created total 0 addPermits_isClosed
        addPermits_hasQueue (by rw [addPermits_permits fits]; omega)
    by_cases flag : hasQueue state.pool = true
    · obtain ⟨popped, rest, target, split, drains, after, blocked⟩ :=
        standing_drain full (standing.flagged.mp flag) rests limit
      refine ⟨popped, rest, target, split, drains.step ?_, after, blocked⟩
      simp [advance, releaseAdd, releaseFits_of_le fits, flag, added]
    · have empty : queued = [] := by
        by_contra present
        exact flag (standing.flagged.mpr present)
      subst empty
      have halts : Completes width party added added := .refl ((congrArg ended rests).trans rfl)
      refine ⟨[], [], added, rfl, halts.step ?_,
        by rw [List.append_nil]; exact full, by simp [Blocked]⟩
      rw [← (goto_idle rests : added.goto party .idle = added)]
      simp [advance, releaseAdd, releaseFits_of_le fits, flag, finish, added]

/-! ### One call -/

/-- The semaphore is between two calls, and it is what the reference model has. -/
def Between (state : State (Option κ) κ) (line : Admission κ) : Prop :=
  ∃ granted queued, Standing state line.total granted queued 0 ∧ Blocked state queued ∧
    granted ++ queued = line.live

/-- The call ends in `target`, for all sufficient fuel. -/
def Performs (width : PointerWidth) (wakers : κ → Waker) (state : State (Option κ) κ)
    (event : Event κ) (target : State (Option κ) κ) : Prop :=
  ∃ bound, ∀ fuel ≥ bound, perform width wakers fuel state event = some target

variable {wakers : κ → Waker} {line : Admission κ}

/-- `add_permits`. -/
theorem between_add {more : ℕ} (between : Between state line)
    (limit : line.total + more ≤ maxPermits width) :
    ∃ target, Performs width wakers state (.add more) target ∧
      Between target ⟨line.live, line.total + more⟩ := by
  obtain ⟨granted, queued, standing, blocked, live⟩ := between
  have rests : state.pc none = .idle := standing.others none (by simp [node])
  have count := standing.count
  have word : more < 2 ^ width.bits := by
    have bound := maxPermits_lt width
    omega
  have owing : Standing { state with created := state.created + more } (line.total + more)
    granted queued more :=
    standing.refill state.pool (state.created + more) (line.total + more) more rfl rfl (by omega)
  obtain ⟨popped, rest, target, rfl, completes, after, unserved⟩ :=
    standing_release owing rests limit fun _ => blocked
  refine ⟨target, completes.call ?_, granted ++ popped, rest, after, unserved, ?_⟩
  · simp [begin, rests, word]
  · rw [List.append_assoc]
    exact live

/-! ### A request enters -/

/-- A new future of `acquire_many`. -/
def created (state : State (Option κ) κ) (who : κ) (size : ℕ) : State (Option κ) κ :=
  { state with
    signal := Function.update state.signal (some who) .newNone
    request := Function.update state.request (some who) ⟨who, size⟩ }.goto (some who) .future

variable {who : κ} {size : ℕ}

theorem nodup_enter {line : List (κ × ℕ)} (distinct : (line.map Prod.fst).Nodup)
    (fresh : who ∉ line.map Prod.fst) : ((line ++ [(who, size)]).map Prod.fst).Nodup := by
  rw [List.map_append, List.map_singleton, ← List.concat_eq_append]
  exact distinct.concat fresh

/-- The first poll takes the permits. -/
theorem Standing.take {waker : Waker} (standing : Standing state total granted [] 0)
    (fresh : who ∉ granted.map Prod.fst) (enough : size ≤ permits state.pool) :
    Standing (acquired { created state who size with pool := takePermits state.pool size }
      (some who) (.poll waker)) total (granted ++ [(who, size)]) [] 0 := by
  let taken : State (Option κ) κ :=
    acquired { created state who size with pool := takePermits state.pool size } (some who)
      (.poll waker)
  show Standing taken total (granted ++ [(who, size)]) [] 0
  have same {request : κ × ℕ} (member : request ∈ granted) : SameAt state taken request := by
    have different := node_ne fresh member
    refine ⟨?_, ?_, ?_⟩ <;> simp [taken, acquired, created, Function.update_of_ne different]
  have permit : taken.held = ⟨who, size⟩ :: state.held := by simp [taken, acquired, created]
  have returned : (taken.signal (some who)).value = .returned := by simp [taken, acquired]
  have flags := flags_of_mod (takePermits_mod enough)
  have distinct := standing.distinct
  have others := standing.others
  have count := standing.count
  rw [List.append_nil] at distinct others
  refine ⟨?_, ?_, ?_, ?_, ?_, ?_, ?_, ?_, ?_, ?_, ?_, ?_⟩
  · rw [List.append_nil]
    exact nodup_enter distinct fresh
  · intro request member
    rcases List.mem_append.mp member with before | now
    · exact (standing.satisfied request before).frame (same before) fun held => by
        rw [permit]
        exact List.mem_cons_of_mem _ held
    · obtain rfl := List.mem_singleton.mp now
      refine ⟨?_, ?_, .inr ⟨returned, ?_⟩⟩
      · simp [taken, acquired]
      · simp [taken, acquired, created]
      · rw [permit]
        exact List.mem_cons_self
  · simp
  · intro party outside
    simp only [List.append_nil, List.map_append, List.map_singleton, List.mem_append,
      List.mem_singleton, not_or] at outside
    simpa [taken, acquired, created, outside.2] using others party outside.1
  · exact standing.linked
  · exact flags.1.trans standing.opened
  · show hasQueue (takePermits state.pool size) = true ↔ _
    rw [flags.2]
    exact standing.flagged
  · simp
  · simp
  · intro permit' member
    rw [permit] at member
    rcases List.mem_cons.mp member with rfl | before
    · exact ⟨(who, size), by simp, rfl, returned⟩
    · obtain ⟨request, inside, equal, value⟩ := standing.held permit' before
      exact ⟨request, List.mem_append_left _ inside, equal, by rw [(same inside).2.2]; exact value⟩
  · rw [permit, List.nodup_cons]
    refine ⟨fun before => ?_, standing.once⟩
    obtain ⟨request, inside, equal, -⟩ := standing.held _ before
    injection equal with equal
    exact fresh (equal ▸ List.mem_map_of_mem inside)
  · show permits (takePermits state.pool size) + _ + _ + _ = total
    rw [takePermits_permits, demand_append]
    simp only [assigned_nil, demand_cons, demand_nil] at count ⊢
    omega

/-- The state of a first poll that has linked its node. -/
def parked (state : State (Option κ) κ) (queued : List (κ × ℕ)) (who : κ) (size : ℕ)
    (waker : Waker) : State (Option κ) κ :=
  let future := created state who size
  { future with
    pool := setQueue state.pool, queue := ⟨none, queued.map node ++ [some who]⟩
    signal := Function.update future.signal (some who)
      ((((future.signal (some who)).setValue .initWaiting).register waker).setAux
      (future.requested (some who)))
    }.goto (some who) .future

/-- The first poll links its node. -/
theorem Standing.park {waker : Waker} (standing : Standing state total granted queued 0)
    (fresh : who ∉ (granted ++ queued).map Prod.fst) (blocked : Blocked state queued)
    (barred : queued = [] → permits state.pool < size) :
    Standing (parked state queued who size waker) total granted (queued ++ [(who, size)]) 0 ∧
      Blocked (parked state queued who size waker) (queued ++ [(who, size)]) := by
  have same {request : κ × ℕ} (member : request ∈ granted ++ queued) :
      SameAt state (parked state queued who size waker) request := by
    have different := node_ne fresh member
    refine ⟨?_, ?_, ?_⟩ <;> simp [parked, created, Function.update_of_ne different]
  have own : Pending (parked state queued who size waker) (who, size) := by
    refine ⟨?_, ?_, ?_⟩ <;> simp [parked, created]
  have missing : ((parked state queued who size waker).signal (some who)).aux = size := by
    simp [parked, created, State.requested]
  have pool : permits (parked state queued who size waker).pool = permits state.pool :=
    setQueue_permits
  have count := standing.count
  refine ⟨⟨?_, ?_, ?_, ?_, ?_, ?_, ?_, ?_, ?_, ?_, ?_, ?_⟩, ?_⟩
  · rw [← List.append_assoc]
    exact nodup_enter standing.distinct fresh
  · intro request member
    exact (standing.satisfied request member).frame (same (List.mem_append_left _ member)) id
  · intro request member
    rcases List.mem_append.mp member with before | now
    · exact (standing.pending request before).frame (same (List.mem_append_right _ before))
    · obtain rfl := List.mem_singleton.mp now
      exact own
  · intro party outside
    rw [← List.append_assoc, List.map_append, List.map_singleton, List.mem_append,
      List.mem_singleton, not_or] at outside
    simpa [parked, created, outside.2] using standing.others party outside.1
  · rw [List.map_append, List.map_singleton]
    rfl
  · exact setQueue_isClosed.trans standing.opened
  · exact iff_of_true setQueue_hasQueue (by simp)
  · cases queued with
    | nil => simp
    | cons front rest =>
      intro request member
      rcases List.mem_append.mp member with before | now
      · rw [(same (by simp [before])).2.2]
        exact standing.whole request before
      · obtain rfl := List.mem_singleton.mp now
        exact missing
  · cases queued with
    | nil =>
      rintro request ⟨⟩
      exact missing.le
    | cons front rest =>
      rintro request ⟨⟩
      rw [(same (by simp)).2.2]
      exact standing.short front rfl
  · intro permit member
    obtain ⟨request, inside, equal, value⟩ := standing.held permit member
    exact ⟨request, inside, equal, by rw [(same (List.mem_append_left _ inside)).2.2]; exact value⟩
  · exact standing.once
  · cases queued with
    | nil =>
      rw [List.nil_append, assigned_cons, missing, pool]
      simpa using count
    | cons front rest =>
      rw [List.cons_append, assigned_cons, (same (by simp)).2.2, pool]
      exact count
  · cases queued with
    | nil =>
      rintro request ⟨⟩
      rw [pool, missing]
      exact barred rfl
    | cons front rest =>
      rintro request ⟨⟩
      rw [pool, (same (by simp)).2.2]
      exact blocked front rfl

/-- `acquire_many` and its first poll. -/
theorem between_enter (between : Between state line) (fresh : who ∉ line.live.map Prod.fst)
    (asks : size ≤ maxPermits width) :
    ∃ target, Performs width wakers state (.enter who size) target ∧
      Between target ⟨line.live ++ [(who, size)], line.total⟩ := by
  obtain ⟨granted, queued, standing, blocked, live⟩ := between
  rw [← live] at fresh ⊢
  have rests : state.pc (some who) = .idle := standing.others _ (by rwa [mem_map_node])
  have word : size < 2 ^ width.bits := by
    have bound := maxPermits_lt width
    omega
  have requested : (created state who size).requested (some who) = size := by
    simp [created, State.requested]
  have creates : begin width state (some who) (.create ⟨who, size⟩) =
      some (created state who size) := by
    simp [begin, beginRequest, created, rests, word]
  have polls : begin width (created state who size) (some who) (.poll (wakers who)) =
      some ((created state who size).goto (some who) (.tryLoad (.pollAcquire (wakers who)))) := by
    simp [begin, poll, created]
  have performs {target : State (Option κ) κ} (completes : Completes width (some who)
      ((created state who size).goto (some who) (.tryLoad (.pollAcquire (wakers who)))) target) :
      Performs width wakers state (.enter who size) target := by
    have halts : Completes width (some who) (created state who size) (created state who size) :=
      .refl (by simp [created, ended])
    obtain ⟨first, made⟩ := halts.call creates
    obtain ⟨second, polled⟩ := completes.call polls
    refine ⟨max first second, fun fuel enough => ?_⟩
    rw [perform, made fuel (by omega), Option.bind_some, polled fuel (by omega)]
  by_cases free : hasQueue state.pool = false ∧ size ≤ permits state.pool
  · obtain ⟨unflagged, enough⟩ := free
    have empty : queued = [] := by
      by_contra present
      simp [standing.flagged.mpr present] at unflagged
    subst empty
    rw [List.append_nil] at fresh
    have takes : Completes width (some who)
        ((created state who size).goto (some who) (.tryLoad (.pollAcquire (wakers who))))
        (acquired { created state who size with
          pool := takePermits state.pool ((created state who size).requested (some who)) }
          (some who)
          (.poll (wakers who))) :=
      completes_take standing.opened unflagged (by rw [requested]; exact enough)
    rw [requested] at takes
    refine ⟨_, performs takes, granted ++ [(who, size)], [], standing.take fresh enough,
      by simp [Blocked], ?_⟩
    simp
  · have barred : hasQueue state.pool = true ∨ permits state.pool < size := by
      rcases not_and_or.mp free with flag | few
      · exact .inl (by simpa using flag)
      · exact .inr (not_le.mp few)
    have behind (empty : queued = []) : permits state.pool < size := by
      refine barred.resolve_left fun flag => standing.flagged.mp flag empty
    have parks : Completes width (some who)
        ((created state who size).goto (some who) (.tryLoad (.pollAcquire (wakers who))))
        (parked state queued who size (wakers who)) :=
      completes_enqueue standing.opened standing.linked (by rw [requested]; exact barred)
        (by rw [requested]; exact fun empty => behind (List.map_eq_nil_iff.mp empty))
        (by rw [requested]; exact asks)
    obtain ⟨after, unserved⟩ := standing.park fresh blocked behind
    exact ⟨_, performs parks, granted, queued ++ [(who, size)], after, unserved,
      by rw [List.append_assoc]⟩

/-! ### A request leaves -/

theorem erase_middle {ι : Type} [DecidableEq ι] {before after : List ι} {party : ι}
    (absent : party ∉ before) : (before ++ party :: after).erase party = before ++ after := by
  rw [List.erase_append_right _ absent, List.erase_cons_head]

variable {front rest : List (κ × ℕ)}

theorem nodup_leave (distinct : ((front ++ (who, size) :: rest).map Prod.fst).Nodup) :
    who ∉ (front ++ rest).map Prod.fst ∧ ((front ++ rest).map Prod.fst).Nodup := by
  rw [List.map_append, List.map_cons] at distinct
  rw [List.map_append]
  exact List.nodup_cons.mp (List.nodup_middle.mp distinct)

/-- A granted request is gone, and its permits are to be released. -/
theorem Standing.giveBack
    (standing : Standing state total (front ++ (who, size) :: rest) queued 0) :
    Standing ({ state with held := state.held.erase ⟨who, size⟩ }.goto (some who) .idle) total
      (front ++ rest) queued size := by
  let left : State (Option κ) κ := { state with held := state.held.erase ⟨who, size⟩ }.goto
    (some who) .idle
  show Standing left total (front ++ rest) queued size
  obtain ⟨apart, distinct⟩ : who ∉ ((front ++ rest) ++ queued).map Prod.fst ∧
      (((front ++ rest) ++ queued).map Prod.fst).Nodup := by
    have distinct := standing.distinct
    rw [List.append_assoc, List.cons_append] at distinct
    rw [List.append_assoc]
    exact nodup_leave distinct
  have inside {request : κ × ℕ} (member : request ∈ front ++ rest) :
      request ∈ front ++ (who, size) :: rest :=
    ((List.sublist_cons_self (who, size) rest).append_left front).subset member
  have same {request : κ × ℕ} (member : request ∈ (front ++ rest) ++ queued) :
      SameAt state left request := by
    have different := node_ne apart member
    refine ⟨?_, rfl, rfl⟩
    simp [left, Function.update_of_ne different]
  have count := standing.count
  refine ⟨distinct, ?_, ?_, ?_, standing.linked, standing.opened, standing.flagged, standing.whole,
    standing.short, ?_, standing.once.erase _, ?_⟩
  · intro request member
    have other : request.1 ≠ who := fun same =>
      apart (same ▸ List.mem_map_of_mem (List.mem_append_left _ member))
    refine (standing.satisfied request (inside member)).frame (same (List.mem_append_left _ member))
      fun held => ?_
    refine (List.mem_erase_of_ne fun equal => other ?_).mpr held
    injection equal
  · intro request member
    exact (standing.pending request member).frame (same (List.mem_append_right _ member))
  · intro party outside
    by_cases own : party = some who
    · subst own
      simp [left]
    · have elsewhere : party ∉ ((front ++ (who, size) :: rest) ++ queued).map node := by
        simp only [List.map_append, List.map_cons, List.mem_append, List.mem_cons,
          not_or] at outside ⊢
        exact ⟨⟨outside.1.1, own, outside.1.2⟩, outside.2⟩
      simpa [left, own] using standing.others party elsewhere
  · intro permit member
    obtain ⟨other, before⟩ := (standing.once.mem_erase_iff).mp member
    obtain ⟨request, among, equal, value⟩ := standing.held permit before
    refine ⟨request, ?_, equal, value⟩
    simp only [List.mem_append, List.mem_cons] at among ⊢
    rcases among with early | rfl | late
    · exact .inl early
    · exact absurd equal other
    · exact .inr late
  · simp only [demand_append, demand_cons] at count ⊢
    show permits state.pool + assigned state.signal queued + _ + _ = total
    omega

/-- The state of a drop that has unlinked its node. -/
def unlinked (width : PointerWidth) (state : State (Option κ) κ) (who : κ) (queued : List (κ × ℕ)) :
    State (Option κ) κ :=
  { state with
    pool := unlockedPool width (queued.map node) state.pool
    queue := ⟨none, queued.map node⟩ }.goto (some who) .idle

/-- A queued request is gone, and the permits its node was served are to be released. -/
theorem Standing.cancel (standing : Standing state total granted (front ++ (who, size) :: rest) 0)
    (limit : total ≤ maxPermits width) :
    Standing (unlinked width state who (front ++ rest)) total granted (front ++ rest)
      (size - (state.signal (some who)).aux) := by
  obtain ⟨apart, distinct⟩ : who ∉ (granted ++ (front ++ rest)).map Prod.fst ∧
      ((granted ++ (front ++ rest)).map Prod.fst).Nodup := by
    have distinct := standing.distinct
    rw [← List.append_assoc] at distinct ⊢
    exact nodup_leave distinct
  have inside {request : κ × ℕ} (member : request ∈ front ++ rest) :
      request ∈ front ++ (who, size) :: rest :=
    ((List.sublist_cons_self (who, size) rest).append_left front).subset member
  have same {request : κ × ℕ} (member : request ∈ granted ++ (front ++ rest)) :
      SameAt state (unlinked width state who (front ++ rest)) request := by
    have different := node_ne apart member
    refine ⟨?_, rfl, rfl⟩
    simp [unlinked, Function.update_of_ne different]
  have count := standing.count
  have small : permits state.pool ≤ maxPermits width := by omega
  have pool : permits (unlinked width state who (front ++ rest)).pool = permits state.pool :=
    unlockedPool_permits small
  refine ⟨distinct, ?_, ?_, ?_, rfl, (unlockedPool_isClosed ..).trans standing.opened, ?_, ?_, ?_,
    ?_, standing.once, ?_⟩
  · intro request member
    exact (standing.satisfied request member).frame (same (List.mem_append_left _ member)) id
  · intro request member
    exact (standing.pending request (inside member)).frame (same (List.mem_append_right _ member))
  · intro party outside
    by_cases own : party = some who
    · subst own
      simp [unlinked]
    · have elsewhere : party ∉ (granted ++ (front ++ (who, size) :: rest)).map node := by
        simp only [List.map_append, List.map_cons, List.mem_append, List.mem_cons,
          not_or] at outside ⊢
        exact ⟨outside.1, outside.2.1, own, outside.2.2⟩
      simpa [unlinked, own] using standing.others party elsewhere
  · show hasQueue (unlockedPool width _ state.pool) = true ↔ _
    rw [unlockedPool_hasQueue, standing.flagged.mpr (by simp)]
    simp
  · intro request member
    refine standing.whole request ?_
    cases front with
    | nil => exact List.mem_of_mem_tail member
    | cons first others =>
      exact ((List.sublist_cons_self (who, size) rest).append_left others).subset member
  · intro request member
    cases front with
    | nil => exact (standing.whole request (List.mem_of_mem_head? member)).le
    | cons first others => exact standing.short request member
  · intro permit member
    exact standing.held permit member
  · rw [pool]
    show permits state.pool + assigned state.signal (front ++ rest) + demand granted +
      (size - (state.signal (some who)).aux) = total
    cases front with
    | nil =>
      have next : assigned state.signal rest = 0 := assigned_whole standing.whole
      have balance : permits state.pool + (size - (state.signal (some who)).aux) + demand granted +
          0 = total :=
        count
      rw [List.nil_append, next]
      omega
    | cons first others =>
      -- a node behind the front one was served nothing
      have missing : (state.signal (some who)).aux = size := standing.whole (who, size) (by simp)
      rw [missing, Nat.sub_self]
      exact count

/-- A front part of the line that is not empty keeps its first request. -/
theorem Blocked.cancel (blocked : Blocked state (front ++ (who, size) :: rest))
    (present : front ≠ []) (small : permits state.pool ≤ maxPermits width) :
    Blocked (unlinked width state who (front ++ rest)) (front ++ rest) := by
  cases front with
  | nil => exact absurd rfl present
  | cons first others =>
    rintro request ⟨⟩
    have pool : permits (unlockedPool width ((first :: others ++ rest).map node) state.pool) =
        permits state.pool := unlockedPool_permits small
    exact pool.trans_lt (blocked first rfl)

/-- The drop of a queued future. -/
theorem settles_cancel (standing : Standing state total granted (front ++ (who, size) :: rest) 0)
    (blocked : Blocked state (front ++ (who, size) :: rest)) (limit : total ≤ maxPermits width) :
    Settles width (some who) (state.goto (some who) .dropLoad) total granted (front ++ rest) := by
  let gone := unlinked width state who (front ++ rest)
  have cancelled :
      Standing gone total granted (front ++ rest) (size - (state.signal (some who)).aux) :=
    standing.cancel limit
  have rests : gone.pc (some who) = .idle := by simp [gone, unlinked]
  have pending := standing.pending (who, size) (by simp)
  have count := standing.count
  have served : state.granted (some who) = size - (state.signal (some who)).aux := by
    rw [State.granted, State.requested, pending.asked]
  have absent : some who ∉ front.map node := by
    rw [mem_map_node]
    have distinct := standing.distinct
    rw [List.map_append, List.nodup_append] at distinct
    have apart := (nodup_leave distinct.2.1).1
    rw [List.map_append] at apart
    exact fun inside => apart (List.mem_append_left _ inside)
  -- the drop up to the point where the node is unlinked
  have cancels (headChanged : Bool)
      (changed : (decide (((front ++ (who, size) :: rest).map node).head? = some (some who)) &&
        !((front ++ rest).map node).isEmpty) = headChanged) {target : State (Option κ) κ}
      (later : Completes width (some who) (unlocked gone (some who)
        (.cancelFound (size - (state.signal (some who)).aux) headChanged)) target) :
      Completes width (some who) (state.goto (some who) .dropLoad) target := by
    rw [← served] at later
    refine completes_cancel pending.waits standing.linked (by simp [node]) ?_ changed ?_
    · rw [List.map_append, List.map_cons, List.map_append]
      exact erase_middle absent
    · rw [← unlocked_goto .idle]
      exact later
  by_cases owes : 0 < size - (state.signal (some who)).aux
  · -- what the node was served goes back
    obtain ⟨popped, left, target, split, releases, after, unserved⟩ :=
      standing_release cancelled rests limit fun nothing => absurd nothing owes.ne'
    refine ⟨popped, left, target, split, cancels _ rfl ?_, after, unserved⟩
    rw [unlocked, if_pos owes]
    exact releases
  · have nothing : size - (state.signal (some who)).aux = 0 := by omega
    rw [nothing] at cancelled
    by_cases first : front = []
    · subst first
      by_cases last : rest = []
      · -- it was the only one
        subst last
        refine ⟨[], [], gone, rfl, cancels false (by simp) ?_,
          by rw [List.append_nil]; exact cancelled, by simp [Blocked]⟩
        rw [unlocked, if_neg owes, if_neg (by simp), goto_idle rests]
        exact .refl (by rw [rests]; rfl)
      · -- the next one may fit
        obtain ⟨popped, left, target, split, drains, after, unserved⟩ :=
          standing_drain cancelled last rests limit
        refine ⟨popped, left, target, split, cancels true (by simp [last]) ?_, after, unserved⟩
        rw [unlocked, if_neg owes, if_pos rfl]
        exact drains
    · -- somebody else is in front
      refine ⟨[], front ++ rest, gone, rfl, cancels false ?_ ?_,
        by rw [List.append_nil]; exact cancelled, blocked.cancel first (by omega)⟩
      · cases front with
        | nil => exact absurd rfl first
        | cons head others =>
          have different : node head ≠ some who := fun same => absent (by simp [same])
          simp [different]
      · rw [unlocked, if_neg owes, if_neg (by simp), goto_idle rests]
        exact .refl (by rw [rests]; rfl)

/-- A request whose future has not returned has no permit. -/
theorem Standing.not_held (standing : Standing state total granted queued owed)
    (different : (state.signal (some who)).value ≠ .returned) : ⟨who, size⟩ ∉ state.held := by
  intro inside
  obtain ⟨request, -, equal, returned⟩ := standing.held _ inside
  injection equal with equal
  exact different (by rw [equal]; exact returned)

/-- A granted request leaves: its permit is dropped, or its future has not been told yet. -/
theorem performs_giveBack (standing : Standing state total (front ++ (who, size) :: rest) queued 0)
    {target : State (Option κ) κ} (releases : Completes width (some who)
      (release ({ state with held := state.held.erase ⟨who, size⟩ }.goto (some who) .idle)
      (some who) size .done) target) : Performs width wakers state (.leave who) target := by
  obtain ⟨future, asked, served⟩ := standing.satisfied (who, size) (by simp)
  rcases served with signaled | ⟨returned, held⟩
  · have absent : ⟨who, size⟩ ∉ state.held := standing.not_held (by rw [signaled]; decide)
    rw [List.erase_of_not_mem absent, release_goto] at releases
    have drops : Completes width (some who) (state.goto (some who) .dropLoad) target := by
      refine releases.step ?_
      rw [← release_goto .dropLoad]
      simp [advance, dropLoad, signaled, State.requested, asked]
    have begins : begin width state (some who) .drop = some (state.goto (some who) .dropLoad) := by
      simp [begin, drop, future, signaled]
    obtain ⟨bound, called⟩ := drops.call begins
    refine ⟨bound, fun fuel enough => ?_⟩
    rw [perform, asked, if_neg (mt List.contains_iff_mem.mp absent)]
    exact called fuel enough
  · have halts :
        Completes width (some who) (state.goto (some who) .idle) (state.goto (some who) .idle) :=
      .refl (by simp [ended])
    have drops : begin width state (some who) .drop = some (state.goto (some who) .idle) := by
      simp [begin, drop, future, returned]
    have gives : begin width (state.goto (some who) .idle) (some who) (.dropPermit ⟨who, size⟩) =
        some (release ({ state with held := state.held.erase ⟨who, size⟩ }.goto (some who) .idle)
          (some who) size .done) := by
      simp [begin, held]
    obtain ⟨first, dropped⟩ := halts.call drops
    obtain ⟨second, given⟩ := releases.call gives
    refine ⟨max first second, fun fuel enough => ?_⟩
    rw [perform, asked, if_pos (List.contains_iff_mem.mpr held), dropped fuel (by omega),
      Option.bind_some, given fuel (by omega)]

/-- A queued request leaves. -/
theorem performs_cancel (standing : Standing state total granted (front ++ (who, size) :: rest) 0)
    {target : State (Option κ) κ}
    (cancels : Completes width (some who) (state.goto (some who) .dropLoad) target) :
    Performs width wakers state (.leave who) target := by
  obtain ⟨future, asked, waits⟩ := standing.pending (who, size) (by simp)
  have absent : ⟨who, size⟩ ∉ state.held := standing.not_held (by rw [waits]; decide)
  have begins : begin width state (some who) .drop = some (state.goto (some who) .dropLoad) := by
    simp [begin, drop, future, waits]
  obtain ⟨bound, called⟩ := cancels.call begins
  refine ⟨bound, fun fuel enough => ?_⟩
  rw [perform, asked, if_neg (mt List.contains_iff_mem.mp absent)]
  exact called fuel enough

/-- The drop of a future or of a permit. -/
theorem between_leave (between : Between state line) (member : who ∈ line.live.map Prod.fst)
    (limit : line.total ≤ maxPermits width) :
    ∃ target, Performs width wakers state (.leave who) target ∧
      Between target ⟨line.live.filter (·.1 ≠ who), line.total⟩ := by
  obtain ⟨granted, queued, standing, blocked, live⟩ := between
  rw [← live] at member ⊢
  obtain ⟨⟨_, size⟩, inside, rfl⟩ := List.mem_map.mp member
  have distinct := standing.distinct
  rcases List.mem_append.mp inside with given | waiting
  · obtain ⟨front, rest, rfl⟩ := List.append_of_mem given
    rw [List.append_assoc, List.cons_append] at distinct ⊢
    obtain ⟨popped, left, target, rfl, releases, after, unserved⟩ :=
      standing_release standing.giveBack (Function.update_self ..) limit fun _ => blocked
    refine ⟨target, performs_giveBack standing releases, (front ++ rest) ++ popped, left, after,
      unserved, ?_⟩
    rw [Admission.filter_leave (nodup_leave distinct).1]
    simp only [List.append_assoc]
  · obtain ⟨front, rest, rfl⟩ := List.append_of_mem waiting
    rw [← List.append_assoc] at distinct ⊢
    obtain ⟨popped, left, target, split, cancels, after, unserved⟩ :=
      settles_cancel standing blocked limit
    refine ⟨target, performs_cancel standing cancels, granted ++ popped, left, after, unserved, ?_⟩
    rw [Admission.filter_leave (nodup_leave distinct).1, List.append_assoc, List.append_assoc,
      split]

/-! ### Any sequence of calls -/

/-- **One call keeps to the reference model.** -/
theorem between_call {event : Event κ} {next : Admission κ} (between : Between state line)
    (asks : ∀ who size, event = .enter who size → size ≤ maxPermits width)
    (applied : line.apply event = some next) (limit : next.total ≤ maxPermits width) :
    ∃ target, Performs width wakers state event target ∧ Between target next := by
  cases event with
  | enter who size =>
    simp only [Admission.apply] at applied
    split at applied
    · cases applied
    · rename_i fresh
      cases applied
      exact between_enter between fresh (asks who size rfl)
  | leave who =>
    simp only [Admission.apply] at applied
    split at applied
    · rename_i member
      cases applied
      exact between_leave between member limit
    · cases applied
  | add more =>
    cases applied
    exact between_add between limit

/-- The calls end in `target`, for all sufficient fuel. -/
def PerformsAll (width : PointerWidth) (wakers : κ → Waker) (state : State (Option κ) κ)
    (calls : List (Event κ)) (target : State (Option κ) κ) : Prop :=
  ∃ bound, ∀ fuel ≥ bound, performAll width wakers fuel state calls = some target

/-- **Any sequence of calls keeps to the reference model.** -/
theorem between_calls {calls : List (Event κ)} {last : Admission κ} (between : Between state line)
    (asks : ∀ who size, .enter who size ∈ calls → size ≤ maxPermits width)
    (ran : line.run calls = some last) (limit : last.total ≤ maxPermits width) :
    ∃ target, PerformsAll width wakers state calls target ∧ Between target last := by
  induction calls generalizing state line with
  | nil =>
    cases ran
    exact ⟨state, ⟨0, fun _ _ => rfl⟩, between⟩
  | cons event calls ih =>
    rw [Admission.run_cons] at ran
    obtain ⟨next, applied, ran⟩ := Option.bind_eq_some_iff.mp ran
    obtain ⟨middle, ⟨first, performs⟩, between⟩ := show
        ∃ target, Performs width wakers state event target ∧ Between target next from
      between_call between (fun who size same => asks who size (by simp [same])) applied
        ((Admission.total_le_run ran).trans limit)
    obtain ⟨target, ⟨second, performsAll⟩, between⟩ := ih between
      (fun who size later => asks who size (List.mem_cons_of_mem _ later)) ran
    refine ⟨target, ⟨max first second, fun fuel enough => ?_⟩, between⟩
    rw [performAll, List.foldlM_cons, performs fuel (by omega)]
    exact performsAll fuel (by omega)

/-- The new semaphore. -/
theorem between_start (n : ℕ) (kind : κ) : Between (start n kind) ⟨[], n⟩ := by
  refine ⟨[], [], ⟨?_, ?_, ?_, ?_, ?_, ?_, ?_, ?_, ?_, ?_, ?_, ?_⟩, ?_, rfl⟩ <;>
    simp [start, WaitQueue.new, Blocked]

/-! ### The reference model -/

/-- The request of `who` has its permits: the permit is live, or the future has been told and not
been polled. -/
def Granted (state : State (Option κ) κ) (who : κ) : Prop :=
  (∃ n, ⟨who, n⟩ ∈ state.held) ∨
    state.pc (some who) = .future ∧ (state.signal (some who)).value = .signaled

/-- The permits assigned to the head of the queue. -/
def assignedToHead (state : State (Option κ) κ) : ℕ :=
  match state.queue.entries with
  | [] => 0
  | head :: _ => state.granted head

/-- **The semaphore agrees with the reference model**: `granted` is the longest front part of the
live requests that fits, these requests have their permits, the others are queued in the order in
which they entered, and the permits that are not given out are in the pool or with the head of the
queue. -/
structure Agrees (state : State (Option κ) κ) (line : Admission κ) (granted : List (κ × ℕ)) :
    Prop where
  longest : LongestFront line.total line.live granted
  served : ∀ who, Granted state who ↔ who ∈ granted.map Prod.fst
  queued : granted.map node ++ state.queue.entries = line.live.map node
  balance : permits state.pool + assignedToHead state = line.total - demand granted

theorem Between.agrees (between : Between state line) : ∃ granted, Agrees state line granted := by
  obtain ⟨granted, queued, standing, blocked, live⟩ := between
  have count := standing.count
  refine ⟨granted, ?_, fun who => ⟨?_, ?_⟩, ?_, ?_⟩
  · rw [← live]
    refine .of_blocked (by omega) fun request member => ?_
    have misses := blocked request member
    have bound := standing.short request member
    have front : assigned state.signal queued = request.2 - (state.signal (node request)).aux := by
      cases queued with
      | nil => cases member
      | cons first rest =>
        cases member
        rfl
    omega
  · rintro (⟨n, held⟩ | ⟨future, signaled⟩)
    · obtain ⟨request, member, equal, -⟩ := standing.held _ held
      injection equal with equal
      exact equal ▸ List.mem_map_of_mem member
    · have member : some who ∈ (granted ++ queued).map node := by
        by_contra outside
        rw [standing.others _ outside] at future
        cases future
      rw [mem_map_node, List.map_append] at member
      refine (List.mem_append.mp member).resolve_right fun waiting => ?_
      obtain ⟨request, inside, rfl⟩ := List.mem_map.mp waiting
      have waits := (standing.pending request inside).waits
      rw [signaled] at waits
      cases waits
  · intro member
    obtain ⟨request, inside, rfl⟩ := List.mem_map.mp member
    obtain ⟨future, -, signaled | ⟨-, held⟩⟩ := standing.satisfied request inside
    · exact .inr ⟨future, signaled⟩
    · exact .inl ⟨_, held⟩
  · rw [← live, standing.linked, List.map_append]
  · have head : assignedToHead state = assigned state.signal queued := by
      rw [assignedToHead, standing.linked]
      cases queued with
      | nil => rfl
      | cons first rest =>
        have asked := (standing.pending first List.mem_cons_self).asked
        show state.granted (node first) = _
        rw [State.granted, State.requested, asked, assigned_cons]
    omega

/-- It depends on the line alone who is granted. -/
theorem Agrees.granted_iff {other : State (Option κ) κ} {granted granted' : List (κ × ℕ)}
    (first : Agrees state line granted) (second : Agrees other line granted') (who : κ) :
    Granted other who ↔ Granted state who := by
  rw [first.served, second.served, first.longest.unique second.longest]

/-- What the calls of a sequence lead to. -/
structure Greedy (width : PointerWidth) (wakers : κ → Waker) (kind : κ) (n : ℕ)
    (calls : List (Event κ)) (line : Admission κ) (state : State (Option κ) κ) : Prop where
  /-- The calls return. -/
  performed : PerformsAll width wakers (start n kind) calls state
  agrees : ∃ granted, Agrees state line granted
  /-- Permits may be added in two parts. -/
  split : ∀ before j k after, calls = before ++ .add (j + k) :: after →
    ∃ other, PerformsAll width wakers (start n kind) (before ++ .add j :: .add k :: after) other ∧
      ∀ who, Granted other who ↔ Granted state who
  /-- A request that entered and left may as well never have come. -/
  deleted : ∀ before who size between after,
    calls = before ++ .enter who size :: (between ++ .leave who :: after) → .leave who ∉ between →
    ∃ other, PerformsAll width wakers (start n kind) (before ++ (between ++ after)) other ∧
      ∀ who, Granted other who ↔ Granted state who

/-- **The semaphore is a greedy one that serves in the order of arrival.** After any sequence of
calls, each run to completion, with requests and permits of at most `MAX_PERMITS`, it agrees with
the reference model; so it does after every call, and it depends on the live requests and on the
permits alone who is granted. -/
theorem semaphore_greedy (width : PointerWidth) (wakers : κ → Waker) (kind : κ) (n : ℕ)
    (calls : List (Event κ))
    (line : Admission κ) (ran : (⟨[], n⟩ : Admission κ).run calls = some line)
    (asks : ∀ who size, .enter who size ∈ calls → size ≤ maxPermits width)
    (limit : line.total ≤ maxPermits width) :
    ∃ state, Greedy width wakers kind n calls line state := by
  have performs (others : List (Event κ)) (ran : (⟨[], n⟩ : Admission κ).run others = some line)
      (fewer : ∀ who size, .enter who size ∈ others → .enter who size ∈ calls) :
      ∃ state, PerformsAll width wakers (start n kind) others state ∧
        ∃ granted, Agrees state line granted := by
    obtain ⟨state, performed, between⟩ := between_calls (between_start n kind)
      (fun who size inside => asks who size (fewer who size inside)) ran limit
    exact ⟨state, performed, between.agrees⟩
  obtain ⟨state, performed, granted, agrees⟩ := performs calls ran fun _ _ inside => inside
  refine ⟨state, performed, ⟨granted, agrees⟩, ?_, ?_⟩
  · rintro before j k after rfl
    obtain ⟨other, performed, _, alike⟩ := performs (before ++ .add j :: .add k :: after)
      ((Admission.add_split ..).trans ran) (fun who size inside => by simpa using inside)
    exact ⟨other, performed, agrees.granted_iff alike⟩
  · rintro before who size between after rfl stays
    obtain ⟨other, performed, _, alike⟩ := performs (before ++ (between ++ after))
      (Admission.delete ran stays) (fun who size inside => by
        simp only [List.mem_append, List.mem_cons] at inside ⊢
        tauto)
    exact ⟨other, performed, agrees.granted_iff alike⟩

end Calls

/-- The head of the queue is served in part and then cancelled, and a request for nothing is granted
behind it. -/
theorem semaphore_greedy_cancelledHead : ∃ state : State (Option (Fin 3)) (Fin 3),
    Greedy .bits64 (fun _ => 0) 0 1 [.enter 0 1, .enter 1 3, .enter 2 0, .add 1, .leave 0, .leave 1]
      ⟨[(2, 0)], 2⟩ state :=
  semaphore_greedy .bits64 (fun _ => 0) 0 1
    [.enter 0 1, .enter 1 3, .enter 2 0, .add 1, .leave 0, .leave 1] ⟨[(2, 0)], 2⟩ rfl
    (by
      intro who size inside
      have small : size ≤ 3 := by
        simp only [List.mem_cons, Event.enter.injEq, reduceCtorEq, List.not_mem_nil,
          or_false] at inside
        omega
      exact small.trans (by decide))
    (by decide)

/-- Before the last of these calls, two of the three permits are with the head of the queue. -/
example : ((performAll .bits64 (fun _ => 0) 20 (start 1 0 : State (Option (Fin 3)) (Fin 3))
    [.enter 0 1, .enter 1 3, .enter 2 0, .add 1, .leave 0]).map fun state =>
      (permits state.pool, state.queue.entries, assignedToHead state)) = some
      (0, [some 1, some 2], 2) := by
  decide +kernel

end Xutex.Semaphore
