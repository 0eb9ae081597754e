/-
**The reader-writer lock excludes.**

Nothing in the lock checks who else holds it: exclusion is the accounting of the permits. `Sound` is
what the lock adds to the books of the semaphore (`Ledger`):

* the semaphore stays open, and no call is on a way that only a closed one has (`soundAt`);
* the live permits are those of guards, one for a read guard and all of them for a write guard;
* no call has failed.

`exclusion` reads the result off both: a write guard has all the permits there are, so that nothing
is left for another guard or for a downgrade that is under way.
-/

import Xutex.RwLock.Model
import Xutex.Semaphore.Conservation

set_option linter.unusedSectionVars false

namespace Xutex.RwLock

open Concurrency Semaphore

variable {ι : Type} [DecidableEq ι]

/-! ### What the lock adds -/

/-- The permit is that of a guard. -/
def IsGuard (maxReaders : ℕ) (held : Permit Guard) : Prop := held = permit maxReaders held.kind

/-- Where a release of the lock returns to: a semaphore that is closed would return elsewhere. -/
def afterSound (maxReaders : ℕ) : After Guard → Prop
  | .done => True
  | .grant kept => kept = permit maxReaders .read
  | .closedWait | .closedPoll => False

/-- Where an unlock of the queue returns to, in a call that asks for `request`. -/
def unlockSound (maxReaders : ℕ) (request : Permit Guard) : Unlock ι Guard → Prop
  | .acquired _ | .enqueued _ _ => IsGuard maxReaders request
  | .drained _ after => afterSound maxReaders after
  | .cancelFound _ _ | .cancelMissing => True
  | .closed _ | .closing _ => False

/-- **What is known of a party of the lock** at its point: a call that can still return a guard asks
for one, and no call is on a way of a closed semaphore. -/
def soundAt (maxReaders : ℕ) (request : Permit Guard) : Pc ι Guard → Prop
  | .idle | .dropLoad | .cancelLock | .cancelRemove | .cancelWait => True
  | .future | .tryLoad _ | .tryCas _ _ => IsGuard maxReaders request
  | .enqueueLock _ | .enqueueFlag _ | .enqueueCas _ _ | .enqueuePush _ => IsGuard maxReaders request
  | .syncSpin | .syncSwap | .syncPark | .rearmRegister _ | .rearmLoad _ =>
    IsGuard maxReaders request
  | .releaseAdd _ after | .drainLock after | .drainLoad after => afterSound maxReaders after
  | .drainCas after _ | .drainServe after _ | .drainReturn after _ _ => afterSound maxReaders after
  | .unlock back | .unlockStore back => unlockSound maxReaders request back
  | .signalTake _ _ closed after | .signalPublish _ _ closed after =>
    closed = false ∧ afterSound maxReaders after
  | .closeFlag | .closeLock | .closePop | .forgetLoad _ | .forgetCas _ _ => False

/-- **The invariant of the lock.** -/
structure Sound (maxReaders : ℕ) (state : State ι Guard) : Prop where
  opened : isClosed state.pool = false
  created : state.created = maxReaders
  held : ∀ guard ∈ state.held, IsGuard maxReaders guard
  points : ∀ party, soundAt maxReaders (state.request party) (state.pc party)
  values : ∀ party, (state.signal party).value ≠ .closed
  outcomes : ∀ party, fails (state.outcome party) = false

/-- **What a part of a step of `party` does**: it leaves the semaphore open and the other parties
alone, and it hands out guards only. -/
structure Changes (maxReaders : ℕ) (state next : State ι Guard) (party : ι) : Prop where
  opened : isClosed next.pool = isClosed state.pool
  created : next.created = state.created
  held : ∀ guard ∈ next.held, guard ∈ state.held ∨ IsGuard maxReaders guard
  request : next.request = state.request
  rest : ∀ other, other ≠ party → next.pc other = state.pc other
  values : ∀ node, (next.signal node).value = (state.signal node).value ∨
    (next.signal node).value ≠ .closed
  outcomes : ∀ other, next.outcome other = state.outcome other ∨ fails (next.outcome other) = false

/-- A whole step: the party arrives at a sound point. -/
def Keeps (maxReaders : ℕ) (state next : State ι Guard) (party : ι) : Prop :=
  Changes maxReaders state next party ∧ soundAt maxReaders (next.request party) (next.pc party)

variable {maxReaders : ℕ} {state before next : State ι Guard} {party : ι}

theorem Sound.step (sound : Sound maxReaders state) (keeps : Keeps maxReaders state next party) :
    Sound maxReaders next := by
  obtain ⟨changes, point⟩ := keeps
  refine ⟨changes.opened.trans sound.opened, changes.created.trans sound.created,
    fun guard member => ?_, fun other => ?_, fun node => ?_, fun other => ?_⟩
  · exact (changes.held guard member).elim (sound.held guard) id
  · by_cases self : other = party
    · subst self
      exact point
    · rw [changes.request, changes.rest other self]
      exact sound.points other
  · rcases changes.values node with same | fine
    · rw [same]
      exact sound.values node
    · exact fine
  · rcases changes.outcomes other with same | fine
    · rw [same]
      exact sound.outcomes other
    · exact fine

/-! ### The parts of a step -/

section Parts

theorem Changes.refl (state : State ι Guard) (party : ι) : Changes maxReaders state state party :=
  ⟨rfl, rfl, fun _ => .inl, rfl, fun _ _ => rfl, fun _ => .inl rfl, fun _ => .inl rfl⟩

/-- Work on the pool and the queue. -/
theorem Changes.shared {pool : ℕ} {queue : WaitQueue ι}
    (opened : isClosed pool = isClosed state.pool) :
    Changes maxReaders state { state with pool := pool, queue := queue } party :=
  ⟨opened, rfl, fun _ => .inl, rfl, fun _ _ => rfl, fun _ => .inl rfl, fun _ => .inl rfl⟩

section

variable (changes : Changes maxReaders state before party)
include changes

/-- A write to a node. -/
theorem Changes.setSignal (node : ι) {signal : Signal}
    (fine : signal.value = (before.signal node).value ∨ signal.value ≠ .closed) :
    Changes maxReaders state (before.setSignal node signal) party := by
  refine ⟨changes.opened, changes.created, changes.held, changes.request, changes.rest,
    fun other => ?_, changes.outcomes⟩
  by_cases same : other = node
  · subst same
    simp only [State.setSignal, Function.update_self]
    rcases fine with kept | fine
    · rw [kept]
      exact changes.values other
    · exact .inr fine
  · simp only [State.setSignal, Function.update_of_ne same]
    exact changes.values other

theorem Changes.report {outcome : Outcome} (fine : fails (some outcome) = false) :
    Changes maxReaders state (before.report party outcome) party := by
  refine ⟨changes.opened, changes.created, changes.held, changes.request, changes.rest,
    changes.values, fun other => ?_⟩
  by_cases same : other = party
  · subst same
    simp only [State.report, Function.update_self]
    exact .inr fine
  · simp only [State.report, Function.update_of_ne same]
    exact changes.outcomes other

/-- A guard is handed out. -/
theorem Changes.hold {guard : Permit Guard} (isGuard : IsGuard maxReaders guard) :
    Changes maxReaders state { before with held := guard :: before.held } party := by
  refine ⟨changes.opened, changes.created, fun other member => ?_, changes.request, changes.rest,
    changes.values, changes.outcomes⟩
  rcases List.mem_cons.mp member with rfl | old
  · exact .inr isGuard
  · exact changes.held other old

/-- The step ends at `pc`. -/
theorem Changes.goto {pc : Pc ι Guard} (point : soundAt maxReaders (before.request party) pc) :
    Keeps maxReaders state (before.goto party pc) party := by
  refine ⟨⟨changes.opened, changes.created, changes.held, changes.request,
    fun other different => ?_, changes.values, changes.outcomes⟩, ?_⟩
  · simp only [State.goto, Function.update_of_ne different]
    exact changes.rest other different
  · simp only [State.goto, Function.update_self]
    exact point

end

end Parts

/-! ### The functions of the core -/

section Functions

variable {width : PointerWidth} {after : After Guard} {mode : Mode} {n : ℕ}

section

variable (changes : Changes maxReaders state before party) (returns : afterSound maxReaders after)
include changes returns

theorem finish_keeps : Keeps maxReaders state (finish before party after) party := by
  cases after with
  | done => exact changes.goto trivial
  | grant kept =>
    obtain rfl : kept = permit maxReaders .read := returns
    have held : Changes maxReaders state
        { before with held := permit maxReaders .read :: before.held } party := changes.hold rfl
    exact held.goto trivial
  | closedWait | closedPoll => exact returns.elim

theorem release_keeps : Keeps maxReaders state (release before party n after) party := by
  unfold release
  split
  · exact finish_keeps changes returns
  · exact changes.goto returns

theorem signalNext_keeps {chain : List ι} :
    Keeps maxReaders state (signalNext before party false after chain) party := by
  cases chain with
  | nil => exact finish_keeps changes returns
  | cons node rest => exact changes.goto ⟨rfl, returns⟩

end

/-- The call returns the guard it asks for. -/
theorem acquired_keeps (changes : Changes maxReaders state before party)
    (asked : IsGuard maxReaders (before.request party)) :
    Keeps maxReaders state (acquired before party mode) party := by
  cases mode with
  | wait =>
    have held : Changes maxReaders state (before.grant party) party :=
      (changes.report rfl).hold asked
    exact held.goto trivial
  | poll waker =>
    have marked : Changes maxReaders state
        (before.setSignal party ((before.signal party).setValue .returned)) party :=
      changes.setSignal party (.inr (by rintro ⟨⟩))
    have held : Changes maxReaders state
        ((before.setSignal party ((before.signal party).setValue .returned)).grant party) party :=
      (marked.report rfl).hold asked
    exact held.goto asked

theorem resume_sound {request : Permit Guard} (asked : IsGuard maxReaders request) :
    soundAt maxReaders request (State.resume mode : Pc ι Guard) := by
  cases mode
  · trivial
  · exact asked

theorem enqueueOrAcquire_keeps (changes : Changes maxReaders state before party)
    (asked : IsGuard maxReaders (before.request party)) :
    Keeps maxReaders state (enqueueOrAcquire width before party mode) party := by
  unfold enqueueOrAcquire
  split
  · exact changes.goto asked
  · exact (changes.report rfl).goto (resume_sound asked)

theorem tryNext_keeps {attempt : Attempt} {cur : ℕ}
    (asked : IsGuard maxReaders (state.request party))
    (opened : isClosed cur = false) : Keeps maxReaders state (tryNext width state party attempt cur)
    party := by
  have same : Changes maxReaders state state party := .refl state party
  unfold tryNext
  rw [if_neg (by simp [opened])]
  split
  · cases attempt with
    | tryAcquire => exact (same.report rfl).goto trivial
    | acquireSync | pollAcquire waker => exact same.goto asked
    | acquireSyncSlow =>
      exact enqueueOrAcquire_keeps (same.setSignal party (.inr (by rintro ⟨⟩))) asked
    | pollAcquireSlow waker =>
      exact enqueueOrAcquire_keeps (same.setSignal party (.inr (by rintro ⟨⟩))) asked
  · exact same.goto asked

theorem tryCas_keeps [Fintype ι] {attempt : Attempt} {cur : ℕ} (sound : Sound maxReaders state)
    (ledger : Ledger width state) (source : state.pc party = .tryCas attempt cur) :
    Keeps maxReaders state (tryCas width state party attempt cur) party := by
  have asked : IsGuard maxReaders (state.request party) := by
    simpa [source, soundAt] using sound.points party
  have enough : state.requested party ≤ permits cur :=
    (ledger.known party).takes cur (by rw [source]; rfl)
  unfold tryCas
  split
  · rename_i same
    have taken : Changes maxReaders state
        { state with pool := takePermits cur (state.requested party) } party := by
      refine .shared ?_
      rw [same]
      exact (flags_of_mod (takePermits_mod enough)).1
    have granted (mode : Mode) : Keeps maxReaders state
        (acquired { state with pool := takePermits cur (state.requested party) } party mode)
        party :=
      acquired_keeps taken asked
    cases attempt with
    | tryAcquire | acquireSync | acquireSyncSlow => exact granted .wait
    | pollAcquire waker | pollAcquireSlow waker => exact granted (.poll waker)
  · exact tryNext_keeps asked sound.opened

theorem enqueueNext_sound {request : Permit Guard} {cur : ℕ} (asked : IsGuard maxReaders request)
    (opened : isClosed cur = false) :
    soundAt maxReaders request (enqueueNext state party mode cur) := by
  unfold enqueueNext
  rw [if_neg (by simp [opened])]
  split
  · exact asked
  · exact asked

theorem enqueueCas_keeps [Fintype ι] {cur : ℕ} (sound : Sound maxReaders state)
    (ledger : Ledger width state) (source : state.pc party = .enqueueCas mode cur) :
    Keeps maxReaders state (enqueueCas state party mode cur) party := by
  have asked : IsGuard maxReaders (state.request party) := by
    simpa [source, soundAt] using sound.points party
  have enough : state.requested party ≤ permits cur :=
    (ledger.known party).takes cur (by rw [source]; rfl)
  unfold enqueueCas
  split
  · rename_i same
    have taken : Changes maxReaders state
        { state with pool := takePermits cur (state.requested party) } party := by
      refine .shared ?_
      rw [same]
      exact (flags_of_mod (takePermits_mod enough)).1
    exact taken.goto asked
  · exact (Changes.refl state party).goto (enqueueNext_sound asked sound.opened)

/-- A release fits: what it returns was taken. -/
theorem releaseAdd_keeps [Fintype ι] (ledger : Ledger width state)
    (small : state.created ≤ maxPermits width + state.forgotten)
    (source : state.pc party = .releaseAdd n after) (returns : afterSound maxReaders after) :
    Keeps maxReaders state (releaseAdd width state party n after) party := by
  have amount : shareAt (state.requested party) (state.signal party)
      (.releaseAdd n after : Pc ι Guard) = n + after.permits := Nat.zero_add _
  have fits : permits state.pool + n ≤ maxPermits width := by
    have room := ledger.fits source small
    omega
  have added :
      Changes maxReaders state { state with pool := addPermits width state.pool n } party :=
    .shared addPermits_isClosed
  unfold releaseAdd
  dsimp only
  rw [if_pos (releaseFits_of_le fits)]
  split
  · exact added.goto returns
  · exact finish_keeps added returns

theorem drainServe_keeps {available : ℕ} (returns : afterSound maxReaders after) :
    Keeps maxReaders state (drainServe state party after available) party := by
  have served : Changes maxReaders state
      { state with
        queue := state.queue.leave (serve state.queue.entries state.signal available).rest
        signal := (serve state.queue.entries state.signal available).signal } party :=
    ⟨rfl, rfl, fun _ => .inl, rfl, fun _ _ => rfl, fun node => .inl (serve_value _ _ _ node),
      fun _ => .inl rfl⟩
  refine served.goto ?_
  split
  · exact returns
  · exact returns

theorem unlocked_keeps {back : Unlock ι Guard} (changes : Changes maxReaders state before party)
    (returns : unlockSound maxReaders (before.request party) back) :
    Keeps maxReaders state (unlocked before party back) party := by
  cases back with
  | acquired mode => exact acquired_keeps changes returns
  | enqueued mode first => cases mode <;> cases first <;> exact changes.goto returns
  | drained chain after => exact signalNext_keeps changes returns
  | cancelFound granted headChanged =>
    simp only [unlocked]
    split
    · exact release_keeps changes trivial
    · split <;> exact changes.goto trivial
  | cancelMissing => exact changes.goto trivial
  | closed mode | closing chain => exact returns.elim

theorem unlock_keeps {back : Unlock ι Guard}
    (returns : unlockSound maxReaders (state.request party) back) :
    Keeps maxReaders state (unlock width state party back) party := by
  unfold unlock
  split
  · have cleared :
        Changes maxReaders state { state with pool := clearQueue width state.pool } party :=
      .shared clearQueue_isClosed
    exact cleared.goto returns
  · have freed : Changes maxReaders state { state with queue := state.queue.unlock } party :=
      .shared rfl
    exact unlocked_keeps freed returns

/-- A blocking call reads the signal of a drain. -/
theorem finishSync_keeps {value : SignalValue} (changes : Changes maxReaders state before party)
    (waiting : Waiting state) (waits : waitsAt (state.pc party) (state.signal party).value = true)
    (sound : Sound maxReaders state) (read : value = (state.signal party).value)
    (final : value.isFinal = true) (asked : IsGuard maxReaders (before.request party)) :
    Keeps maxReaders state (finishSync before party value) party := by
  subst read
  have kind := of_decide_eq_true (waiting.signalled party waits final)
  have signalled : (state.signal party).value = .signaled := kind.resolve_right (sound.values party)
  unfold finishSync
  rw [if_pos signalled]
  exact acquired_keeps changes asked

theorem pollFinal_keeps {waker : Waker} (sound : Sound maxReaders state)
    (asked : IsGuard maxReaders (state.request party)) :
    Keeps maxReaders state (pollFinal state party waker (state.signal party).value) party := by
  have same : Changes maxReaders state state party := .refl state party
  unfold pollFinal
  split
  · exact (same.report rfl).goto asked
  · rw [if_neg (sound.values party)]
    exact acquired_keeps same asked

theorem poll_keeps {waker : Waker} (sound : Sound maxReaders state)
    (asked : IsGuard maxReaders (state.request party)) :
    Keeps maxReaders state (poll state party waker) party := by
  have same : Changes maxReaders state state party := .refl state party
  unfold poll
  dsimp only
  split
  · exact same.goto asked
  · split
    · exact same.goto asked
    · exact pollFinal_keeps sound asked

theorem rearmRegister_keeps {waker : Waker} (asked : IsGuard maxReaders (state.request party)) :
    Keeps maxReaders state (rearmRegister state party waker) party := by
  have stored : Changes maxReaders state
      (state.setSignal party ((state.signal party).register waker)) party :=
    (Changes.refl state party).setSignal party (.inl rfl)
  unfold rearmRegister
  dsimp only
  split
  · exact stored.goto asked
  · exact stored.goto asked

theorem drop_keeps : Keeps maxReaders state (drop state party) party := by
  have same : Changes maxReaders state state party := .refl state party
  unfold drop
  split <;> exact same.goto trivial

theorem dropLoad_keeps : Keeps maxReaders state (dropLoad state party) party := by
  have same : Changes maxReaders state state party := .refl state party
  unfold dropLoad
  split
  · exact same.goto trivial
  · exact release_keeps same trivial
  · exact release_keeps same trivial
  all_goals exact same.goto trivial

theorem cancelRemove_keeps : Keeps maxReaders state (cancelRemove state party) party := by
  unfold cancelRemove
  dsimp only
  split
  · have removed :
        Changes maxReaders state { state with queue := state.queue.remove party } party :=
      .shared rfl
    exact removed.goto trivial
  · exact (Changes.refl state party).goto trivial

end Functions

/-! ### The steps -/

section Steps

variable [Fintype ι] {width : PointerWidth}

/-- **Every step inside a call keeps the lock sound.** -/
theorem advance_keeps (sound : Sound maxReaders state) (ledger : Ledger width state)
    (small : state.created ≤ maxPermits width + state.forgotten)
    (stepped : advance width state party = some next) : Keeps maxReaders state next party := by
  have point := sound.points party
  have waiting := ledger.waiting
  have same : Changes maxReaders state state party := .refl state party
  have locked (queue : WaitQueue ι) :
      Changes maxReaders state { state with queue := queue } party :=
    .shared rfl
  cases source : state.pc party <;> rw [source] at point <;>
    simp only [advance, source, Option.some.injEq, reduceCtorEq] at stepped
  case closeFlag | closePop | closeLock | forgetLoad | forgetCas => exact point.elim
  case drainLock after =>
    unfold drainLock at stepped
    split at stepped <;> cases stepped
    · exact finish_keeps same point
    · exact (locked _).goto point
  case enqueueLock mode =>
    unfold enqueueLock at stepped
    split at stepped <;> cases stepped
    exact (locked _).goto point
  case cancelLock =>
    unfold cancelLock at stepped
    split at stepped <;> cases stepped
    · exact same.goto trivial
    · exact (locked _).goto trivial
  case cancelWait =>
    unfold cancelWait at stepped
    dsimp only at stepped
    split at stepped <;> cases stepped
    exact release_keeps same trivial
  case syncPark =>
    unfold syncPark at stepped
    dsimp only at stepped
    split at stepped <;> cases stepped
    rename_i final
    exact finishSync_keeps same waiting (by rw [source]; rfl) sound rfl final point
  all_goals subst stepped
  case tryLoad => exact tryNext_keeps point sound.opened
  case tryCas => exact tryCas_keeps sound ledger source
  case releaseAdd => exact releaseAdd_keeps ledger small source point
  case drainLoad after =>
    refine same.goto ?_
    unfold drainTake
    split <;> exact point
  case drainCas after cur =>
    unfold drainCas
    split
    · rename_i current
      have taken : Changes maxReaders state { state with pool := takeAll cur } party := by
        refine .shared ?_
        rw [current]
        exact takeAll_isClosed
      exact taken.goto point
    · refine same.goto ?_
      unfold drainTake
      split <;> exact point
  case drainServe => exact drainServe_keeps point
  case drainReturn after available chain =>
    have added : Changes maxReaders state
        { state with pool := addPermits width state.pool available } party :=
      .shared addPermits_isClosed
    exact added.goto point
  case enqueueFlag mode =>
    have flagged : Changes maxReaders state { state with pool := setQueue state.pool } party :=
      .shared setQueue_isClosed
    exact flagged.goto (enqueueNext_sound point (setQueue_isClosed.trans sound.opened))
  case enqueueCas => exact enqueueCas_keeps sound ledger source
  case enqueuePush mode =>
    exact (locked _).goto point
  case unlock => exact unlock_keeps point
  case unlockStore back =>
    exact unlocked_keeps (locked _) point
  case signalTake node rest closed after =>
    have taken : Changes maxReaders state (state.setSignal node (state.signal node).take) party :=
      same.setSignal node (.inl rfl)
    exact taken.goto point
  case signalPublish node rest closed after =>
    obtain ⟨rfl, returns⟩ := point
    exact signalNext_keeps (same.setSignal node (.inr (by rintro ⟨⟩))) returns
  case syncSpin =>
    unfold syncSpin
    dsimp only
    split
    · exact finishSync_keeps same waiting (by rw [source]; rfl) sound rfl ‹_› point
    · exact same.goto point
  case syncSwap =>
    have swapped : Changes maxReaders state
        (state.setSignal party ((state.signal party).setValue .initWaiting)) party :=
      same.setSignal party (.inr (by rintro ⟨⟩))
    unfold syncSwap
    dsimp only
    split
    · exact finishSync_keeps swapped waiting (by rw [source]; rfl) sound rfl ‹_› point
    · exact swapped.goto point
  case rearmRegister => exact rearmRegister_keeps point
  case rearmLoad waker =>
    unfold rearmLoad
    dsimp only
    split
    · exact pollFinal_keeps sound point
    · exact same.goto point
  case dropLoad => exact dropLoad_keeps
  case cancelRemove => exact cancelRemove_keeps

/-- A call that asks for a guard begins. -/
theorem beginRequest_sound {guard : Guard} {pc : Pc ι Guard} (sound : Sound maxReaders state)
    (stepped : beginRequest width state party (permit maxReaders guard) pc = some next)
    (point : soundAt maxReaders (permit maxReaders guard) pc) : Sound maxReaders next := by
  unfold beginRequest at stepped
  split at stepped <;> cases stepped
  refine ⟨sound.opened, sound.created, sound.held, fun other => ?_, sound.values, sound.outcomes⟩
  by_cases self : other = party
  · subst self
    simpa using point
  · simpa [self] using sound.points other

/-- A guard ends. -/
theorem release_sound {guard : Permit Guard} {n : ℕ} {after : After Guard}
    (sound : Sound maxReaders state) (returns : afterSound maxReaders after) :
    Sound maxReaders (release { state with held := state.held.erase guard } party n after) := by
  have erased : Changes maxReaders state { state with held := state.held.erase guard } party :=
    ⟨rfl, rfl, fun _ member => .inl (List.mem_of_mem_erase member), rfl, fun _ _ => rfl,
      fun _ => .inl rfl, fun _ => .inl rfl⟩
  exact sound.step (release_keeps erased returns)

theorem isGuard_permit (guard : Guard) : IsGuard maxReaders (permit maxReaders guard) := by
  cases guard <;> rfl

/-- **The beginning of every call keeps the lock sound.** -/
theorem begin_sound {move : Move} (sound : Sound maxReaders state)
    (stepped : begin width state party (move.onSemaphore maxReaders) = some next) :
    Sound maxReaders next := by
  have fresh : Sound maxReaders (state.setSignal party .newNone) := by
    refine ⟨sound.opened, sound.created, sound.held, sound.points, fun other => ?_, sound.outcomes⟩
    by_cases self : other = party
    · subst self
      simp
    · simpa [self] using sound.values other
  cases move <;> simp only [Move.onSemaphore, begin] at stepped
  case tryRead | tryWrite | read | write =>
    exact beginRequest_sound sound stepped (isGuard_permit _)
  case readAsync | writeAsync => exact beginRequest_sound fresh stepped (isGuard_permit _)
  case poll waker =>
    split at stepped <;> cases stepped
    rename_i source
    refine sound.step (poll_keeps sound ?_)
    simpa [source, soundAt] using sound.points party
  case drop =>
    split at stepped <;> cases stepped
    exact sound.step drop_keeps
  case dropReadGuard | dropWriteGuard =>
    split at stepped <;> cases stepped
    exact release_sound sound trivial
  case downgrade =>
    split at stepped <;> cases stepped
    exact release_sound sound rfl
  case advance => cases stepped

/-- **The books and the lock stay sound on every run.** -/
theorem sound_of_reachable (reach : (machine ι width maxReaders).Reachable state) :
    Ledger width state ∧ Sound maxReaders state ∧ 0 < maxReaders := by
  refine reach.invariant
    (fun state => Ledger width state ∧ (Sound maxReaders state ∧ 0 < maxReaders) ∧
      maxReaders ≤ maxPermits width) ?_ ?_ |>.imp_right And.left
  · rintro _ ⟨⟨positive, -⟩, fits, rfl⟩
    refine ⟨ledger_start Guard.read,
      ⟨⟨newPool_isClosed, rfl, ?_, fun _ => trivial, ?_, fun _ => rfl⟩, positive⟩, fits⟩
    · exact fun _ member => absurd member List.not_mem_nil
    · exact fun _ => (by rintro ⟨⟩)
  · rintro state label next - ⟨ledger, ⟨sound, positive⟩, fits⟩ stepped -
    have stepped : Semaphore.step width state (label.1, label.2.onSemaphore maxReaders) =
        some next := stepped
    have small : state.created ≤ maxPermits width + state.forgotten :=
      sound.created ▸ Nat.le_add_right_of_le fits
    have asks : (label.2.onSemaphore maxReaders).asks ≤ maxPermits width := by
      cases label.2 <;> first | exact fits | exact le_trans positive fits | exact Nat.zero_le _
    refine ⟨step_ledger ledger small asks stepped, ⟨?_, positive⟩, fits⟩
    unfold Semaphore.step at stepped
    split at stepped
    · exact sound.step (advance_keeps sound ledger small stepped)
    · exact begin_sound sound stepped

end Steps

/-! ### Exclusion -/

/-- The party is inside `downgrade`. -/
def downgradesAt : Pc ι Guard → Bool
  | .releaseAdd _ (.grant _) | .drainLock (.grant _) | .drainLoad (.grant _) => true
  | .drainCas (.grant _) _ | .drainServe (.grant _) _ | .drainReturn (.grant _) _ _ => true
  | .unlock (.drained _ (.grant _)) | .unlockStore (.drained _ (.grant _)) => true
  | .signalTake _ _ _ (.grant _) | .signalPublish _ _ _ (.grant _) => true
  | _ => false

/-- **What the lock promises of a state.** -/
structure Excludes (maxReaders : ℕ) (state : State ι Guard) : Prop where
  /-- A write guard excludes every other guard. -/
  alone : ∀ guard ∈ state.held, guard.kind = .write → state.held = [guard]
  /-- At most `max_readers` read guards are live. -/
  readers : state.held.countP (fun guard => decide (guard.kind = .read)) ≤ maxReaders
  /-- While a write guard is being downgraded, and while a read guard is live, there is no write
  guard. -/
  downgraded : (∃ party, downgradesAt (state.pc party) = true) ∨
    (∃ guard ∈ state.held, guard.kind = .read) → ∀ guard ∈ state.held, guard.kind ≠ .write
  /-- No call has run into the assertion of `release` or into the closed semaphore. -/
  fine : ∀ party, fails (state.outcome party) = false

/-- A downgrade keeps one permit on its way. -/
theorem one_le_transitAt {pc : Pc ι Guard} {request : Permit Guard} {n : ℕ}
    (sound : soundAt maxReaders request pc) (downgrades : downgradesAt pc = true) :
    1 ≤ transitAt n pc := by
  have kept {guard : Permit Guard} (returns : afterSound maxReaders (.grant guard)) :
      1 ≤ guard.permits := by
    obtain rfl : guard = permit maxReaders .read := returns
    exact le_rfl
  unfold downgradesAt at downgrades
  split at downgrades
  case h_1 => exact (kept sound).trans (Nat.le_add_left _ _)
  case h_9 | h_10 => exact kept sound.2
  case h_11 => cases downgrades
  all_goals exact kept sound

theorem IsGuard.pos {guard : Permit Guard} (isGuard : IsGuard maxReaders guard)
    (positive : 0 < maxReaders) : 0 < guard.permits := by
  rw [isGuard]
  cases guard.kind
  · exact Nat.one_pos
  · exact positive

/-- Every guard has a permit. -/
theorem length_le_heldPermits {held : List (Permit Guard)} (positive : 0 < maxReaders)
    (guards : ∀ guard ∈ held, IsGuard maxReaders guard) : held.length ≤ heldPermits held := by
  have ones : ∀ n ∈ held.map Permit.permits, 1 ≤ n := by
    intro n member
    obtain ⟨guard, inside, rfl⟩ := List.mem_map.mp member
    exact (guards guard inside).pos positive
  simpa [heldPermits] using List.card_nsmul_le_sum _ 1 ones

/-- **Exclusion**: for every number of readers that `with_max_readers` allows, in every state of
every run. -/
theorem exclusion [Fintype ι] {width : PointerWidth}
    (reach : (machine ι width maxReaders).Reachable state) : Excludes maxReaders state := by
  obtain ⟨ledger, sound, positive⟩ := sound_of_reachable reach
  have count := ledger.count
  rw [stock, sound.created] at count
  -- a write guard leaves no permit to anybody
  have all {guard : Permit Guard} (member : guard ∈ state.held) (writes : guard.kind = .write) :
      heldPermits (state.held.erase guard) = 0 ∧ ∑ party, share state party = 0 := by
    have whole : guard.permits = maxReaders := by
      rw [sound.held guard member, writes]
      rfl
    have erased := heldPermits_erase member
    omega
  have alone : ∀ guard ∈ state.held, guard.kind = .write → state.held = [guard] := by
    intro guard member writes
    have others : ∀ other ∈ state.held.erase guard, IsGuard maxReaders other :=
      fun other inside => sound.held other (List.mem_of_mem_erase inside)
    have none := length_le_heldPermits positive others
    rw [(all member writes).1] at none
    have empty : state.held.erase guard = [] := List.eq_nil_of_length_eq_zero (Nat.le_zero.mp none)
    have perm := List.perm_cons_erase member
    rw [empty] at perm
    exact List.perm_singleton.mp perm
  refine ⟨alone, ?_, ?_, sound.outcomes⟩
  · have guards := length_le_heldPermits positive sound.held
    have reading : state.held.countP (fun guard => decide (guard.kind = .read)) ≤
        state.held.length :=
      List.countP_le_length
    omega
  · rintro busy guard member writes
    rcases busy with ⟨party, downgrades⟩ | ⟨reader, inside, reads⟩
    · have none := share_eq_zero_of_sum (all member writes).2 party
      have one := one_le_transitAt (n := state.requested party) (sound.points party) downgrades
      rw [share, shareAt] at none
      omega
    · rw [alone guard member writes, List.mem_singleton] at inside
      rw [inside, writes] at reads
      cases reads

/-- With two readers allowed, `a` takes the write lock, `b` waits for the write lock, `a` downgrades
and `b` is served in part. -/
def downgradedUnderWriter {ι : Type} (a b : ι) : List (Label ι) :=
  [(a, .write), (a, .advance), (a, .advance), (b, .writeAsync), (b, .poll 0)] ++
  List.replicate 6 (b, .advance) ++ [(a, .downgrade)] ++ List.replicate 6 (a, .advance)

/-- The downgraded guard is live, and the writer still waits. -/
theorem exclusion_downgraded : ∃ state :
    State (Fin 2) Guard, (machine (Fin 2) .bits64 2).Reachable state ∧
    state.held = [permit 2 .read] ∧ state.queue.entries = [1] ∧ (state.signal 1).aux = 1 ∧
    Excludes 2 state := by
  obtain ⟨state, reach, ended⟩ := System.exists_reachable_of_run (machine (Fin 2) .bits64 2)
    (fun state => decide (state.held = [permit 2 .read] ∧ state.queue.entries = [1] ∧
      (state.signal 1).aux = 1)) ⟨by decide, by decide, rfl⟩ (downgradedUnderWriter 0 1)
      (by decide +kernel)
  obtain ⟨reads, waits, missing⟩ := of_decide_eq_true ended
  exact ⟨state, reach, reads, waits, missing, exclusion reach⟩

end Xutex.RwLock
