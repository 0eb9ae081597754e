/-
**Where every queue is.**

A queue is in the pool, belongs to one primitive, or is in the hand of the party that has
unpublished it. Which of them is a function of its address, the `place`; `Settled` says that the
program agrees with it.

* `Passes` — **what a step of a primitive does to the queues**: it works on the one it has, or gives
  that away empty.
* `Fits.elsewhere` — what a primitive relies on is its own queue, so that the others may do as they
  please with theirs.
* `Settled.step` — every step of the program moves at most one queue, from one place to the next.
-/

import Xutex.Mutex.Word
import Xutex.Recycling.Model
import Xutex.Recycling.Tagging

set_option linter.unusedSectionVars false

namespace Xutex.Recycling

open Concurrency Mutex PointerWidth
open SignalQueue (Op)

/-! ### What a step of a primitive does to the queues -/

/-- **The queues at a step of a primitive.** Nodes are linked by `links` only. -/
inductive Passes {ι : Type} (links : ι → Prop) (before after : Status ι) (freed : Option ℕ)
    (memory memory' : ℕ → List ι) : Prop
  | keeps (ptr : after.ptr = before.ptr) (none : freed = none)
      (rest : ∀ other, before.ptr ≠ some other → memory' other = memory other)
      (linked : ∀ other node, node ∈ memory' other → node ∈ memory other ∨ links node)
  | frees (ptr : ℕ) (had : before.ptr = some ptr) (has : after.ptr = none)
    (gives : freed = some ptr) (empty : memory ptr = []) (same : memory' = memory)

section Mutex

variable {ι : Type} [DecidableEq ι] [Fintype ι] {width : PointerWidth} {state next : Mutex.State ι}
  {status status' : Status ι} {party : ι} {move : Mutex.Move}

/-- **Only the contents of the mutex's own queue matter.** -/
theorem owned_elsewhere {queues : ℕ → List ι} (owned : Owned width state status)
    (same : ∀ ptr, status.ptr = some ptr → queues ptr = state.queues ptr) :
    Owned width { state with queues := queues } status := by
  have entries : status.entries queues = status.entries state.queues := by
    cases status <;> first | rfl | exact same _ rfl
  refine ⟨⟨owned.encodes, fun party => ?_, ?_⟩, owned.count⟩
  · have known := owned.known party
    revert known
    show _ → LocalAt width queues status party _ _
    cases state.pc party <;> simp only [LocalAt]
    case unlockFree =>
      rintro ⟨rfl, empty⟩
      exact ⟨rfl, by rw [same _ rfl]; exact empty⟩
    all_goals exact id
  · have waiting := owned.waiting
    unfold Mutex.State.waiters at waiting ⊢
    rw [entries]
    exact waiting

/-- A step on the queue a party has. -/
theorem Passes.works {entries : List ι} {ptr : ℕ} (before : status = .held party ptr)
    (after : status' = .held party ptr)
    (queues : next.queues = Function.update state.queues ptr entries)
    (linked : ∀ node ∈ entries, node ∈ state.queues ptr ∨ node = party) :
    Passes (· = party) status status' none state.queues next.queues := by
  subst before after
  refine .keeps rfl rfl (fun other apart => ?_) fun other node => ?_
  · rw [queues, Function.update_of_ne fun same => apart (by rw [same]; rfl)]
  · rw [queues]
    by_cases same : other = ptr
    · subst same
      rw [Function.update_self]
      exact linked node
    · rw [Function.update_of_ne same]
      exact .inl

/-- A step that works on no queue. -/
theorem Passes.rests (ptr : status'.ptr = status.ptr) (queues : next.queues = state.queues) :
    Passes (· = party) status status' none state.queues next.queues :=
  .keeps ptr rfl (fun _ _ => by rw [queues]) fun _ _ linked => .inl (queues ▸ linked)

/-- **A step of a mutex** works on its queue or gives it away. -/
theorem mutex_passes (owned : Owned width state status) (owned' : Owned width next status')
    (stepped : Mutex.step width state (party, move) = some next)
    (answered : ∀ ptr, move ≠ .allocate ptr) :
    Passes (· = party) status status' (mutexFrees move (state.pc party))
      state.queues next.queues := by
  have described := owned.toDescribed
  have after := owned'.toDescribed
  have frees (plain : ∀ ptr, state.pc party ≠ .unlockFree ptr) :
      mutexFrees move (state.pc party) = none := by
    unfold mutexFrees
    split
    · exact absurd ‹_› (plain _)
    · rfl
  have rest (other : ι) (different : other ≠ party) := step_rest stepped different
  cases step_access stepped with
  | quiet word queues before locked chain untagged unclaimed silent =>
    obtain rfl : status' = status := described.same after word fun other held =>
      rest other fun self => by simp [self, before] at held
    rw [frees fun ptr same => by simp [same, Mutex.lockedAt] at before]
    exact .rests rfl queues
  | acquires source free word queues locked chain =>
    obtain rfl := described.encodes.unlocked_iff.mp free
    obtain rfl := after.encodes.eq_locked word
    rw [frees fun ptr same => by simp [same, acquiresAt] at source]
    exact .rests rfl queues
  | claims mode source found word queues target =>
    obtain rfl := described.encodes.eq_locked found
    obtain rfl : status' = .updating party := after.eq_of_statusAt (by rw [target]; rfl)
    rw [frees (by simp [source])]
    exact .rests rfl queues
  | allocates mode ptr => exact absurd rfl (answered ptr)
  | tags ptr source found word queues target =>
    obtain rfl := described.claims_queue source found
    obtain rfl : status' = .held party ptr := after.eq_of_statusAt (statusAt_of_accesses target)
    rw [frees fun ptr same => by simp [same, tagsAt] at source]
    exact .rests rfl queues
  | pushes mode ptr source word queues target =>
    rw [frees (by simp [source])]
    refine .works (described.eq_of_statusAt (by rw [source]; rfl))
      (after.eq_of_statusAt (by rw [target]; rfl)) queues fun node linked => ?_
    simpa using linked
  | removes ptr source word queues target =>
    rw [frees (by simp [source])]
    exact .works (described.eq_of_statusAt (by rw [source]; rfl))
      (after.eq_of_statusAt (by rw [target]; rfl))
      queues fun node linked => .inl (List.mem_of_mem_erase linked)
  | pops ptr node behind source front word queues target =>
    rw [frees (by simp [source])]
    exact .works (described.eq_of_statusAt (by rw [source]; rfl))
      (after.eq_of_statusAt (by rw [target]; rfl))
      queues fun node linked => .inl (by rw [front]; exact List.mem_cons_of_mem _ linked)
  | empties ptr source none word queues target =>
    obtain rfl : status = .held party ptr := described.eq_of_statusAt (by rw [source]; rfl)
    obtain rfl : status' = .held party ptr := after.eq_of_statusAt (by rw [target]; rfl)
    rw [frees (by simp [source])]
    exact .rests rfl queues
  | stores ptr source word queues locked chain =>
    obtain rfl : status = .held party ptr := described.eq_of_statusAt (statusAt_of_stores source)
    obtain rfl := described.stored after word
    rw [frees fun ptr same => by simp [same, storesAt] at source]
    exact .rests rfl queues
  | frees ptr source word queues target =>
    obtain ⟨rfl, empty⟩ := described.here source
    obtain rfl := after.encodes.unlocked_iff.mp word
    exact .frees ptr rfl rfl (by rw [source]; rfl) empty queues
  | unlocks source found word queues target =>
    obtain rfl := described.encodes.eq_locked found
    obtain rfl := after.encodes.unlocked_iff.mp word
    rw [frees (by simp [source])]
    exact .rests rfl queues
  | signals node source word queues target =>
    obtain rfl : status' = status := described.same after word fun other held =>
      rest other fun self => by simp [self, source, Mutex.lockedAt] at held
    rw [frees (by simp [source])]
    exact .rests rfl queues

end Mutex

section Queue

variable {ι : Type} [DecidableEq ι] {width : PointerWidth} {state next : Queue.State ι}
  {status status' : Status ι} {party : ι} {move : Queue.Move ι}

/-- The node a move links. -/
def pushes : Queue.Move ι → ι → Prop
  | .withQueue (.push node), other => other = node
  | _, _ => False

theorem run_linked {entries : List ι} {op : Op ι} {node : ι} (linked : node ∈ (op.run entries).1) :
    node ∈ entries ∨ pushes (.withQueue op) node := by
  cases op with
  | push new => simpa [Op.run, pushes] using linked
  | pop => exact .inl (List.mem_of_mem_tail linked)
  | remove old => exact .inl (List.mem_of_mem_erase linked)
  | first => exact .inl linked
  | isEmpty => exact .inl linked

/-- What a step leaves in the queues. -/
theorem step_linked {other : ℕ} {node : ι}
    (stepped : Queue.step width state (party, move) = some next)
    (linked : node ∈ next.queues other) : node ∈ state.queues other ∨ pushes move node := by
  have same (queues : next.queues = state.queues) : node ∈ state.queues other ∨ pushes move node :=
    .inl (queues ▸ linked)
  cases move <;> simp only [Queue.step, Queue.begin] at stepped
  case advance =>
    cases source : state.pc party <;>
      simp only [Queue.advance, source, Option.some.injEq, reduceCtorEq] at stepped <;>
        subst stepped
    case check => exact same (by unfold Queue.check; split <;> rfl)
    case init => exact same (by unfold Queue.init; split <;> rfl)
    case tag => exact same (by unfold Queue.tag; split <;> rfl)
    all_goals exact same rfl
  case lock =>
    split at stepped <;> cases stepped
    exact same rfl
  case unlock =>
    split at stepped <;> cases stepped
    exact same rfl
  case withQueue op =>
    split at stepped
    · rename_i ptr source
      have queues :
          next.queues = Function.update state.queues ptr (op.run (state.queues ptr)).1 := by
        unfold Queue.withQueue at stepped
        dsimp only at stepped
        split at stepped
        · split at stepped <;> cases stepped
          rfl
        · cases stepped
          rfl
      rw [queues] at linked
      by_cases same : other = ptr
      · subst same
        rw [Function.update_self] at linked
        exact run_linked linked
      · rw [Function.update_of_ne same] at linked
        exact .inl linked
    · cases stepped

/-- **A step of a wait queue** works on its queue or gives it away. -/
theorem queue_passes (change : Queue.Change width state next party status status')
    (stepped : Queue.step width state (party, move) = some next) :
    Passes (pushes move) status status' (queueFrees move (state.pc party))
      state.queues next.queues := by
  have linked (other : ℕ) (node : ι) (present : node ∈ next.queues other) :=
    step_linked stepped present
  have frees (plain : ∀ ptr, move = .advance → state.pc party ≠ .unpublish ptr) :
      queueFrees move (state.pc party) = none := by
    unfold queueFrees
    split
    · exact absurd ‹_› (plain _ rfl)
    · rfl
  have rests (ptr : status'.ptr = status.ptr) (queues : next.queues = state.queues)
      (plain : ∀ ptr, state.pc party ≠ .unpublish ptr) :
      Passes (pushes move) status status' (queueFrees move (state.pc party))
        state.queues next.queues :=
    .keeps ptr (frees fun ptr _ => plain ptr) (fun _ _ => by rw [queues]) linked
  cases change with
  | quiet word queues before after =>
    exact rests rfl queues fun ptr same => by simp [same, Queue.lockedAt] at before
  | claims source found word queues target => exact rests rfl queues (by simp [source])
  | tags ptr source found word queues target => exact rests rfl queues (by simp [source])
  | stores ptr source word queues target => exact rests rfl queues (by simp [source])
  | works ptr entries word queues before after =>
    refine .keeps rfl (frees fun ptr moves source => ?_) (fun other apart => ?_) linked
    · -- the last store of `unlock` ends the work
      subst moves
      simp only [Queue.step, Queue.advance, source, Option.some.injEq] at stepped
      subst stepped
      simp [Queue.lockedAt] at after
    · rw [queues, Function.update_of_ne fun same => apart (by rw [same]; rfl)]
  | frees ptr source empty word queues target =>
    have advances : move = .advance := by
      cases move <;> simp [Queue.step, Queue.begin, source] at stepped
      rfl
    refine .frees ptr rfl rfl ?_ empty queues
    rw [advances, source]
    rfl

end Queue

/-! ### What a primitive relies on -/

section Fits

variable {κ ω ι : Type} [DecidableEq κ] [DecidableEq ω] [DecidableEq ι] [Fintype ι]
  {width : PointerWidth} {state next : State κ ω ι} {status : Status ι}

/-- The status says what the word of the primitive stands for. -/
def Fits (width : PointerWidth) (state : State κ ω ι) : κ ⊕ ω → Status ι → Prop
  | .inl index, status => Owned width (state.mutexAt index) status
  | .inr index, status => Queue.Described width (state.queueAt index) status

/-- The primitive has not moved. -/
def Unmoved (state next : State κ ω ι) : κ ⊕ ω → Prop
  | .inl index => next.mutex index = state.mutex index
  | .inr index => next.queue index = state.queue index

/-- **What a primitive relies on is its own queue.** -/
theorem Fits.elsewhere {primitive : κ ⊕ ω} (fits : Fits width state primitive status)
    (unmoved : Unmoved state next primitive)
    (same : ∀ ptr, status.ptr = some ptr → next.memory ptr = state.memory ptr) :
    Fits width next primitive status := by
  cases primitive with
  | inl index =>
    have result : Owned width { state.mutexAt index with queues := next.memory } status :=
      owned_elsewhere fits same
    have view : next.mutexAt index = { state.mutexAt index with queues := next.memory } := by
      show { next.mutex index with queues := next.memory } =
        { state.mutex index with queues := next.memory }
      rw [show next.mutex index = state.mutex index from unmoved]
    show Owned width (next.mutexAt index) status
    rw [view]
    exact result
  | inr index =>
    have result : Queue.Described width { state.queueAt index with queues := next.memory } status :=
      Queue.Described.elsewhere fits same
    have view : next.queueAt index = { state.queueAt index with queues := next.memory } := by
      show { next.queue index with queues := next.memory } =
        { state.queue index with queues := next.memory }
      rw [show next.queue index = state.queue index from unmoved]
    show Queue.Described width (next.queueAt index) status
    rw [view]
    exact result

end Fits

/-! ### The places -/

/-- The places a queue can be in. -/
inductive Place (κ ω ι : Type)
  | pool
  | primitive (owner : κ ⊕ ω)
  | hand (party : ι)

section Settled

variable {κ ω ι : Type} [DecidableEq κ] [DecidableEq ω] [DecidableEq ι] [Fintype ι]

/-- **The program agrees with the places of its queues.** What has no place has not been made. -/
structure Settled (width : PointerWidth) (home : ι → κ ⊕ ω) (state : State κ ω ι)
    (status : κ ⊕ ω → Status ι) (place : ℕ → Option (Place κ ω ι)) : Prop where
  fits : ∀ primitive, Fits width state primitive (status primitive)
  pooled : ∀ ptr, ptr ∈ state.pool.getD [] ↔ place ptr = some .pool
  nodup : (state.pool.getD []).Nodup
  installed : ∀ primitive ptr, (status primitive).ptr = some ptr ↔
    place ptr = some (.primitive primitive)
  handed : ∀ party ptr, state.hand party = some ptr ↔ place ptr = some (.hand party)
  boxed : ∀ ptr, ptr ∈ state.boxes ↔ place ptr ≠ none
  aligned : ∀ ptr ∈ state.boxes, width.IsQueue ptr
  /-- A linked node lies in the queue of its home. -/
  homed : ∀ ptr node, node ∈ state.memory ptr → place ptr = some (.primitive (home node))

variable {width : PointerWidth} {home : ι → κ ⊕ ω} {state next : State κ ω ι}
  {status : κ ⊕ ω → Status ι}
  {place : ℕ → Option (Place κ ω ι)} {primitive : κ ⊕ ω} {party : ι} {ptr : ℕ}

/-- What belongs to no primitive is empty. -/
theorem Settled.empty (settled : Settled width home state status place)
    (elsewhere : ∀ primitive, place ptr ≠ some (.primitive primitive)) : state.memory ptr = [] :=
  List.eq_nil_iff_forall_not_mem.mpr fun node linked => elsewhere _ (settled.homed ptr node linked)

/-- A primitive's queue is nobody else's. -/
theorem Settled.apart (settled : Settled width home state status place) {other : κ ⊕ ω}
    (mine : (status primitive).ptr = some ptr) (theirs : (status other).ptr = some ptr) :
    other = primitive := by
  have one := (settled.installed primitive ptr).mp mine
  rw [(settled.installed other ptr).mp theirs] at one
  cases one
  rfl

/-- The program agrees with some places. -/
abbrev Settles (width : PointerWidth) (home : ι → κ ⊕ ω) (state : State κ ω ι) : Prop :=
  ∃ status place, Settled width home state status place

section Moves

variable {status' : Status ι} {freed : Option ℕ} {links : ι → Prop}

/-- The other primitives keep what they rely on. -/
theorem Settled.fits_update (settled : Settled width home state status place)
    (unmoved : ∀ other, other ≠ primitive → Unmoved state next other)
    (rest : ∀ ptr, (status primitive).ptr ≠ some ptr →
      (∃ owner, place ptr = some (.primitive owner)) → next.memory ptr = state.memory ptr)
    (fits : Fits width next primitive status') (other : κ ⊕ ω) :
    Fits width next other (Function.update status primitive status' other) := by
  by_cases same : other = primitive
  · subst same
    rw [Function.update_self]
    exact fits
  · rw [Function.update_of_ne same]
    refine (settled.fits other).elsewhere (unmoved other same) fun ptr theirs => ?_
    exact rest ptr (fun mine => same (settled.apart mine theirs))
      ⟨other, (settled.installed other ptr).mp theirs⟩

/-- A primitive works on the queue it has, or goes on without one. -/
theorem Settled.keeps (settled : Settled width home state status place)
    (pool : next.pool = state.pool)
    (boxes : next.boxes = state.boxes) (hand : next.hand = state.hand)
    (unmoved : ∀ other, other ≠ primitive → Unmoved state next other)
    (fits : Fits width next primitive status') (same : status'.ptr = (status primitive).ptr)
    (rest : ∀ other, (status primitive).ptr ≠ some other → next.memory other = state.memory other)
    (linked : ∀ other node, node ∈ next.memory other → node ∈ state.memory other ∨
      home node = primitive) :
    Settles width home next := by
  refine ⟨Function.update status primitive status', place,
    settled.fits_update unmoved (fun ptr apart _ => rest ptr apart) fits,
    by rw [pool]; exact settled.pooled, by rw [pool]; exact settled.nodup, fun other ptr => ?_,
    by rw [hand]; exact settled.handed, by rw [boxes]; exact settled.boxed,
    by rw [boxes]; exact settled.aligned, fun ptr node present => ?_⟩
  · rw [← settled.installed other ptr]
    by_cases self : other = primitive
    · subst self
      rw [Function.update_self, same]
    · rw [Function.update_of_ne self]
  · by_cases mine : (status primitive).ptr = some ptr
    · rcases linked ptr node present with old | own
      · exact settled.homed ptr node old
      · rw [own]
        exact (settled.installed primitive ptr).mp mine
    · rw [rest ptr mine] at present
      exact settled.homed ptr node present

/-- **One queue, an empty one, changes its place.** -/
theorem Settled.relocate {after : κ ⊕ ω → Status ι}
    (settled : Settled width home state status place)
    (target : Place κ ω ι) (fits : ∀ primitive, Fits width next primitive (after primitive))
    (pooled : ∀ other, other ≠ ptr → (other ∈ next.pool.getD [] ↔ other ∈ state.pool.getD []))
    (inPool : ptr ∈ next.pool.getD [] ↔ target = .pool) (nodup : (next.pool.getD []).Nodup)
    (installed : ∀ primitive other, other ≠ ptr →
      ((after primitive).ptr = some other ↔ (status primitive).ptr = some other))
    (inPrimitive : ∀ primitive, (after primitive).ptr = some ptr ↔ target = .primitive primitive)
    (handed : ∀ party other, other ≠ ptr →
      (next.hand party = some other ↔ state.hand party = some other))
    (inHand : ∀ party, next.hand party = some ptr ↔ target = .hand party)
    (boxed : ∀ other, other ∈ next.boxes ↔ other = ptr ∨ other ∈ state.boxes)
    (aligned : width.IsQueue ptr)
    (memory : ∀ other, other ≠ ptr → next.memory other = state.memory other)
    (empty : next.memory ptr = []) : Settles width home next := by
  have moved : Function.update place ptr (some target) ptr = some target := Function.update_self ..
  have stays (other : ℕ) (different : other ≠ ptr) : Function.update place ptr (some target) other =
      place other :=
    Function.update_of_ne different ..
  refine ⟨after, Function.update place ptr (some target), fits, fun other => ?_, nodup,
    fun primitive other => ?_, fun party other => ?_, fun other => ?_, fun other made => ?_,
    fun other node present => ?_⟩
  · by_cases same : other = ptr
    · rw [same, moved, inPool, Option.some.injEq]
    · rw [stays other same, pooled other same, settled.pooled]
  · by_cases same : other = ptr
    · rw [same, moved, inPrimitive, Option.some.injEq]
    · rw [stays other same, installed primitive other same, settled.installed]
  · by_cases same : other = ptr
    · rw [same, moved, inHand, Option.some.injEq]
    · rw [stays other same, handed party other same, settled.handed]
  · by_cases same : other = ptr
    · simp [same, boxed]
    · rw [stays other same, boxed, settled.boxed, or_iff_right same]
  · rcases (boxed other).mp made with rfl | old
    · exact aligned
    · exact settled.aligned other old
  · by_cases same : other = ptr
    · rw [same, empty] at present
      cases present
    · rw [memory other same] at present
      rw [stays other same]
      exact settled.homed other node present

theorem ptr_update {other : ℕ} (same : status'.ptr = some other ↔
      (status primitive).ptr = some other) (owner : κ ⊕ ω) :
    (Function.update status primitive status' owner).ptr = some other ↔
    (status owner).ptr = some other := by
  by_cases self : owner = primitive
  · subst self
    rw [Function.update_self, same]
  · rw [Function.update_of_ne self]

theorem hand_update {hand : ι → Option ℕ} {held : Option ℕ} {other : ℕ}
    (same : held = some other ↔ hand party = some other) (owner : ι) :
    Function.update hand party held owner = some other ↔ hand owner = some other := by
  by_cases self : owner = party
  · subst self
    rw [Function.update_self, same]
  · rw [Function.update_of_ne self]

/-- A primitive gives its empty queue to the party that has unpublished it. -/
theorem Settled.frees (settled : Settled width home state status place)
    (pool : next.pool = state.pool)
    (boxes : next.boxes = state.boxes) (free : state.hand party = none)
    (hand : next.hand = Function.update state.hand party (some ptr))
    (unmoved : ∀ other, other ≠ primitive → Unmoved state next other)
    (fits : Fits width next primitive status')
    (had : (status primitive).ptr = some ptr) (has : status'.ptr = none)
    (empty : state.memory ptr = [])
    (same : next.memory = state.memory) : Settles width home next := by
  have placed := (settled.installed primitive ptr).mp had
  have box : ptr ∈ state.boxes := (settled.boxed ptr).mpr (by rw [placed]; rintro ⟨⟩)
  refine settled.relocate (.hand party)
    (settled.fits_update unmoved (fun _ _ _ => by rw [same]) fits)
    (fun _ _ => by rw [pool]) ?_ (by rw [pool]; exact settled.nodup)
      (fun owner other different => ?_)
    (fun owner => ?_) (fun owner other different => ?_) (fun owner => ?_) (fun other => ?_)
      (settled.aligned ptr box)
    (fun _ _ => by rw [same]) (by rw [same, empty])
  · rw [pool, settled.pooled, placed]
    simp
  · refine ptr_update ?_ owner
    rw [has, had]
    simp [Ne.symm different]
  · by_cases self : owner = primitive
    · simp [self, has]
    · rw [Function.update_of_ne self, settled.installed, placed]
      simp [Ne.symm self]
  · rw [hand]
    refine hand_update ?_ owner
    rw [free]
    simp [Ne.symm different]
  · rw [hand]
    by_cases self : owner = party
    · simp [self]
    · rw [Function.update_of_ne self, settled.handed, placed]
      simp [Ne.symm self]
  · rw [boxes]
    exact ⟨.inr, fun made => made.elim (· ▸ box) id⟩

/-- A primitive gets a queue that nobody had: one from the pool, or a new one. -/
theorem Settled.installs (settled : Settled width home state status place)
    (vacant : place ptr = some .pool ∨ place ptr = none) (hand : next.hand = state.hand)
    (pooled : ∀ other, other ∈ next.pool.getD [] ↔ other ∈ state.pool.getD [] ∧ other ≠ ptr)
    (nodup : (next.pool.getD []).Nodup) (boxed : ∀ other, other ∈ next.boxes ↔ other = ptr ∨
      other ∈ state.boxes)
    (aligned : width.IsQueue ptr) (unmoved : ∀ other, other ≠ primitive → Unmoved state next other)
    (fits : Fits width next primitive status') (had : (status primitive).ptr = none)
    (has : status'.ptr = some ptr) (memory : ∀ other, other ≠ ptr →
      next.memory other = state.memory other)
    (empty : next.memory ptr = []) : Settles width home next := by
  have nobody (owner : κ ⊕ ω) : (status owner).ptr ≠ some ptr := fun theirs => by
    rw [(settled.installed owner ptr).mp theirs] at vacant
    simp at vacant
  refine settled.relocate (.primitive primitive)
    (settled.fits_update unmoved (fun other _ owned => memory other ?_) fits)
    (fun other different => by simp [pooled, different]) (by simp [pooled]) nodup
      (fun owner other different => ?_)
    (fun owner => ?_) (fun _ _ _ => by rw [hand]) (fun owner => ?_) boxed aligned memory empty
  · rintro rfl
    obtain ⟨owner, owned⟩ := owned
    rw [owned] at vacant
    simp at vacant
  · refine ptr_update ?_ owner
    rw [has, had]
    simp [Ne.symm different]
  · by_cases self : owner = primitive
    · simp [self, has]
    · rw [Function.update_of_ne self]
      simp [nobody owner, Ne.symm self]
  · rw [hand, settled.handed]
    rcases vacant with pool | new
    · simp [pool]
    · simp [new]

/-- `deallocate_queue`. -/
theorem Settled.deallocate {pool : List ℕ} (settled : Settled width home state status place)
    (before : state.pool = some pool) (held : state.hand party = some ptr) :
    Settles width home ({ state with pool := some (pool ++ [ptr]) }.setHand party none) := by
  have placed := (settled.handed party ptr).mp held
  have box : ptr ∈ state.boxes := (settled.boxed ptr).mpr (by rw [placed]; rintro ⟨⟩)
  have outside : ptr ∉ pool := fun inside => by
    have pooled := (settled.pooled ptr).mp (by rw [before]; exact inside)
    rw [placed] at pooled
    cases pooled
  have nodup := settled.nodup
  rw [before] at nodup
  refine settled.relocate .pool
    (fun primitive => (settled.fits primitive).elsewhere ?_ fun _ _ => rfl)
    (fun other different => ?_) (by simp [State.setHand]) ?_ (fun _ _ _ => .rfl)
      (fun primitive => ?_)
    (fun owner other different => ?_) (fun owner => ?_) (fun other => ?_) (settled.aligned ptr box)
      (fun _ _ => rfl)
    (settled.empty (by simp [placed]))
  · cases primitive <;> rfl
  · rw [before]
    simp [State.setHand, different]
  · exact List.nodup_append.mpr ⟨nodup, List.nodup_singleton _, fun other inside new same clash =>
      outside (List.mem_singleton.mp same ▸ clash ▸ inside)⟩
  · rw [settled.installed, placed]
    simp
  · refine hand_update ?_ owner
    rw [held]
    simp [Ne.symm different]
  · show Function.update state.hand party none owner = some ptr ↔ _
    by_cases self : owner = party
    · simp [self]
    · rw [Function.update_of_ne self, settled.handed, placed]
      simp [Ne.symm self]
  · exact ⟨.inr, fun made => made.elim (· ▸ box) id⟩

end Moves

theorem initPool_settles {parallelism : ℕ} {fresh : List ℕ}
    (settled : Settled width home state status place)
    (stepped : initPool width parallelism state fresh = some next) : Settles width home next := by
  unfold initPool at stepped
  split at stepped
  · rename_i guard
    obtain ⟨unpublished, -, nodup, new⟩ := guard
    cases stepped
    have unplaced (ptr : ℕ) (inside : ptr ∈ fresh) : place ptr = none := by
      by_contra made
      exact (new ptr inside).2 ((settled.boxed ptr).mpr made)
    refine ⟨status, fun ptr => if ptr ∈ fresh then some .pool else place ptr, fun primitive => ?_,
      fun ptr => ?_, nodup, fun primitive ptr => ?_, fun party ptr => ?_, fun ptr => ?_,
      fun ptr made => ?_, fun ptr node present => ?_⟩
    · refine (settled.fits primitive).elsewhere (by cases primitive <;> rfl) fun ptr mine =>
        if_neg fun inside => ?_
      have placed := (settled.installed primitive ptr).mp mine
      rw [unplaced ptr inside] at placed
      cases placed
    · by_cases inside : ptr ∈ fresh
      · simp [inside]
      · have outside := settled.pooled ptr
        simp only [unpublished, Option.getD_none, List.not_mem_nil, false_iff] at outside
        simp [inside, outside]
    · by_cases inside : ptr ∈ fresh
      · rw [settled.installed, unplaced ptr inside]
        simp [inside]
      · rw [settled.installed, if_neg inside]
    · by_cases inside : ptr ∈ fresh
      · rw [settled.handed, unplaced ptr inside]
        simp [inside]
      · rw [settled.handed, if_neg inside]
    · by_cases inside : ptr ∈ fresh
      · simp [inside]
      · simp [inside, settled.boxed]
    · rcases List.mem_append.mp made with inside | old
      · exact (new ptr inside).1
      · exact settled.aligned ptr old
    · by_cases inside : ptr ∈ fresh
      · simp [inside] at present
      · dsimp only at present
        rw [if_neg inside] at present ⊢
        exact settled.homed ptr node present
  · cases stepped

@[simp] theorem mutexAt_setMutex (index : κ) (after : Mutex.State ι) :
    (state.setMutex index after).mutexAt index = after := by
  simp [State.mutexAt, State.setMutex]

@[simp] theorem queueAt_setQueue (index : ω) (after : Queue.State ι) :
    (state.setQueue index after).queueAt index = after := by
  simp [State.queueAt, State.setQueue]

theorem unmoved_setMutex {index : κ} {after : Mutex.State ι} {held : Option ℕ} {other : κ ⊕ ω}
    (different : other ≠ .inl index) :
    Unmoved state ((state.setMutex index after).setHand party held) other := by
  cases other with
  | inl other => exact Function.update_of_ne (fun same => different (by rw [same])) ..
  | inr other => rfl

theorem unmoved_setQueue {index : ω} {after : Queue.State ι} {held : Option ℕ} {other : κ ⊕ ω}
    (different : other ≠ .inr index) :
    Unmoved state ((state.setQueue index after).setHand party held) other := by
  cases other with
  | inl other => rfl
  | inr other => exact Function.update_of_ne (fun same => different (by rw [same])) ..

/-- A step of a primitive, whatever it does to the queues. -/
theorem Settled.passes {status' : Status ι} {freed : Option ℕ} {links : ι → Prop}
    (settled : Settled width home state status place) (pool : next.pool = state.pool)
    (boxes : next.boxes = state.boxes) (free : state.hand party = none)
    (hand : next.hand = Function.update state.hand party freed)
    (unmoved : ∀ other, other ≠ primitive → Unmoved state next other)
    (fits : Fits width next primitive status')
    (passes : Passes links (status primitive) status' freed state.memory next.memory)
    (own : ∀ node, links node → home node = primitive) : Settles width home next := by
  cases passes with
  | keeps same none rest linked =>
    have unhanded : next.hand = state.hand := by rw [hand, none, ← free, Function.update_eq_self]
    exact settled.keeps pool boxes unhanded unmoved fits same rest fun other node present =>
      (linked other node present).imp id (own node)
  | frees ptr had has gives empty same =>
    rw [gives] at hand
    exact settled.frees pool boxes free hand unmoved fits had has empty same

theorem mutexStep_settles {move : Mutex.Move} (settled : Settled width home state status place)
    (stepped : mutexStep width home state party move = some next) : Settles width home next := by
  unfold mutexStep at stepped
  split at stepped
  · cases stepped
  · rename_i index owner answered
    split at stepped
    · rename_i free
      obtain ⟨after, made, rfl⟩ := Option.map_eq_some_iff.mp stepped
      obtain ⟨status', owned⟩ := step_keeps (settled.fits (.inl index)) made
      refine settled.passes rfl rfl free rfl (fun _ => unmoved_setMutex) ?_
        (mutex_passes (settled.fits (.inl index)) owned made answered) fun node same => by
        rw [same, owner]
      show Owned width ((state.setMutex index after).mutexAt index) status'
      rw [mutexAt_setMutex]
      exact owned
    · cases stepped
  · cases stepped

theorem queueStep_settles {move : Queue.Move ι} (settled : Settled width home state status place)
    (stepped : queueStep width home state party move = some next) : Settles width home next := by
  unfold queueStep at stepped
  split at stepped
  · cases stepped
  · rename_i index owner
    split at stepped
    · rename_i guard
      obtain ⟨free, links⟩ := guard
      obtain ⟨after, made, rfl⟩ := Option.map_eq_some_iff.mp stepped
      obtain ⟨status', described, change⟩ := Queue.step_steps (settled.fits (.inr index)) made
      refine settled.passes rfl rfl free rfl (fun _ => unmoved_setQueue) ?_
        (queue_passes change made) fun node same => ?_
      · show Queue.Described width ((state.setQueue index after).queueAt index) status'
        rw [queueAt_setQueue]
        exact described
      · cases move with
        | withQueue op =>
          cases op with
          | push new =>
            obtain rfl : node = new := same
            exact of_decide_eq_true links
          | pop | remove | first | isEmpty => exact same.elim
        | lock | unlock | advance => exact same.elim
    · cases stepped

/-- **The caller of `allocate_queue` gets an empty queue.** -/
theorem install_fits {status : Status ι} (fits : Fits width state (home party) status)
    (aligned : width.IsQueue ptr) (empty : state.memory ptr = [])
    (stepped : install home state party ptr = some next) :
    status.ptr = none ∧ ∃ status', Fits width next (home party) status' ∧
      status'.ptr = some ptr := by
  unfold install at stepped
  split at stepped
  · rename_i index owner
    rw [owner] at fits ⊢
    split at stepped
    · rename_i mode source
      cases stepped
      have same : Mutex.allocate (state.mutexAt index) party mode ptr =
          (state.mutexAt index).goto party (.push mode ptr) := by
        have cleared : Function.update state.memory ptr [] = state.memory := by
          rw [← empty, Function.update_eq_self]
        simp [Mutex.allocate, State.mutexAt, cleared]
      obtain ⟨status', owned⟩ := allocate_keeps fits source aligned
      rw [same] at owned
      obtain rfl : status = .updating party := (Owned.toDescribed fits).here source
      have known : statusAt party (((state.mutexAt index).goto party (.push mode ptr)).pc party) =
          some (.held party ptr) := by simp [statusAt]
      obtain rfl : status' = .held party ptr := owned.toDescribed.eq_of_statusAt known
      refine ⟨rfl, .held party ptr, ?_, rfl⟩
      show Owned width ((state.setMutex index _).mutexAt index) _
      rw [mutexAt_setMutex]
      exact owned
    · cases stepped
  · rename_i index owner
    rw [owner] at fits ⊢
    split at stepped
    · rename_i source
      cases stepped
      obtain ⟨rfl, described⟩ := Queue.Described.allocated fits source aligned empty
      refine ⟨rfl, .held party ptr, ?_, rfl⟩
      show Queue.Described width ((state.setQueue index _).queueAt index) _
      rw [queueAt_setQueue]
      exact described
    · cases stepped

/-- An answer of the pool touches only the primitive that asked. -/
theorem install_rest (stepped : install home state party ptr = some next) :
    next.pool = state.pool ∧ next.boxes = state.boxes ∧ next.memory = state.memory ∧
      next.hand = state.hand ∧ ∀ other, other ≠ home party → Unmoved state next other := by
  unfold install at stepped
  split at stepped
  · rename_i index owner
    rw [owner]
    split at stepped <;> cases stepped
    refine ⟨rfl, rfl, rfl, rfl, fun other different => ?_⟩
    cases other with
    | inl other => exact Function.update_of_ne (fun same => different (by rw [same])) ..
    | inr other => rfl
  · rename_i index owner
    rw [owner]
    split at stepped <;> cases stepped
    refine ⟨rfl, rfl, rfl, rfl, fun other different => ?_⟩
    cases other with
    | inl other => rfl
    | inr other => exact Function.update_of_ne (fun same => different (by rw [same])) ..

theorem allocateQueue_settles {fresh : ℕ} (settled : Settled width home state status place)
    (stepped : allocateQueue width home state party fresh = some next) :
    Settles width home next := by
  unfold allocateQueue at stepped
  split at stepped
  · cases stepped
  · rename_i ptr rest published
    have front : ptr ∈ state.pool.getD [] := by
      rw [published]
      exact List.mem_cons_self
    have placed := (settled.pooled ptr).mp front
    have box : ptr ∈ state.boxes := (settled.boxed ptr).mpr (by rw [placed]; rintro ⟨⟩)
    have empty : state.memory ptr = [] := settled.empty (by simp [placed])
    have nodup := settled.nodup
    rw [published] at nodup
    obtain ⟨outside, tail⟩ := List.nodup_cons.mp nodup
    have fits : Fits width { state with pool := some rest } (home party) (status (home party)) :=
      (settled.fits (home party)).elsewhere (by cases home party <;> rfl) fun _ _ => rfl
    obtain ⟨pool, boxes, memory, hand, unmoved⟩ := install_rest stepped
    obtain ⟨had, status', fits', has⟩ := install_fits fits (settled.aligned ptr box) empty stepped
    refine settled.installs (.inl placed) hand (fun other => ?_) ?_ (fun other => ?_)
      (settled.aligned ptr box)
      (fun other different => ?_) fits' had has (fun _ _ => by rw [memory])
        (by rw [memory]; exact empty)
    · rw [pool, published]
      constructor
      · exact fun inside => ⟨List.mem_cons_of_mem _ inside, fun same => outside (same ▸ inside)⟩
      · exact fun inside => (List.mem_cons.mp inside.1).resolve_left inside.2
    · rw [pool]
      exact tail
    · rw [boxes]
      exact ⟨.inr, fun made => made.elim (· ▸ box) id⟩
    · have apart := unmoved other different
      cases other <;> exact apart
  · rename_i exhausted
    split at stepped
    · rename_i new
      obtain ⟨aligned, unmade⟩ := new
      have unplaced : place fresh = none := by
        by_contra made
        exact unmade ((settled.boxed fresh).mpr made)
      have fits : Fits width { state with
          boxes := fresh :: state.boxes
          memory := Function.update state.memory fresh [] } (home party) (status (home party)) := by
        refine (settled.fits (home party)).elsewhere (by cases home party <;> rfl) fun ptr mine =>
          ?_
        refine Function.update_of_ne (fun same => ?_) ..
        have placed := (settled.installed _ ptr).mp mine
        rw [same, unplaced] at placed
        cases placed
      obtain ⟨pool, boxes, memory, hand, unmoved⟩ := install_rest stepped
      obtain ⟨had, status', fits', has⟩ := install_fits fits aligned (Function.update_self ..)
        stepped
      refine settled.installs (.inr unplaced) hand (fun other => ?_) ?_ (fun other => ?_) aligned
        (fun other different => ?_) fits' had has (fun other different => ?_)
        (by rw [memory]; exact Function.update_self ..)
      · rw [pool]
        simp [exhausted]
      · rw [pool]
        simp [exhausted]
      · rw [boxes]
        exact List.mem_cons
      · have apart := unmoved other different
        cases other <;> exact apart
      · rw [memory]
        exact Function.update_of_ne different ..
    · cases stepped

/-- **Every step keeps the program in agreement with the places.** -/
theorem step_settles {parallelism : ℕ} {label : Label ι}
    (settled : Settled width home state status place)
    (stepped : step width parallelism home state label = some next) : Settles width home next := by
  cases label with
  | initPool fresh => exact initPool_settles settled stepped
  | mutex party move => exact mutexStep_settles settled stepped
  | queue party move => exact queueStep_settles settled stepped
  | allocate party fresh => exact allocateQueue_settles settled stepped
  | deallocate party =>
    change deallocateQueue state party = some next at stepped
    unfold deallocateQueue at stepped
    split at stepped
    · rename_i held published
      cases stepped
      exact settled.deallocate published held
    · cases stepped

/-- The primitive a label is about. -/
def mover (home : ι → κ ⊕ ω) : Label ι → Option (κ ⊕ ω)
  | .mutex party _ | .queue party _ | .allocate party _ => some (home party)
  | .initPool _ | .deallocate _ => none

theorem settled_start : Settled width home start (fun _ => .unlocked) fun _ => none where
  fits primitive := by
    cases primitive with
    | inl index => exact owned_start _
    | inr index => exact Queue.Described.start _
  pooled _ := by simp [start]
  nodup := List.nodup_nil
  installed _ _ := by simp [Status.ptr]
  handed _ _ := by simp [start]
  boxed _ := by simp [start]
  aligned _ made := by simp [start] at made
  homed _ _ present := by simp [start] at present

/-- **Every queue has its place**, in every state of every run. -/
theorem settles_of_reachable {parallelism : ℕ}
    (reach : (machine width parallelism home).Reachable state) : Settles width home state := by
  refine reach.invariant (Settles width home) ?_ ?_
  · rintro _ rfl
    exact ⟨_, _, settled_start⟩
  · rintro state label next - ⟨status, place, settled⟩ stepped -
    exact step_settles settled stepped

end Settled

end Xutex.Recycling
