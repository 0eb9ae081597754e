/-
**Every step keeps the rounds.**

One lemma for each function of the barrier that says that the invariant of `Rounds` survives it.
Most steps are not about the round (`Rounds.stay`, `Rounds.leave`); the ones that are:

* an arrival (`Rounds.arrive`) — counted in the current round, or ending it and leading it;
* the leader's drain (`releaseDrain_rounds`) — here two conditions are needed: the leader finds a
  node of its own generation in front, or none in the queue (`drainsOwn`), and generations stand for
  rounds (`NoWrap`);
* the check before parking (`enqueueFresh_rounds`) — who parks does so in the round that is current
  under the tag-lock;
* a withdrawal (`Rounds.withdraw`) — taken back from the round it was counted in.
-/

import Xutex.Barrier.Rounds
import Mathlib.Data.List.TakeWhile

set_option linter.unusedSectionVars false

namespace Xutex.Barrier

open Concurrency Discipline

variable {ι : Type} [DecidableEq ι] [Fintype ι]

/-! ### Steps that are not about the round -/

section Quiet

variable {half n : ℕ} {orderly : Prop} {state next : State ι} {party : ι} {mode : Mode}

section

variable (inv : Rounds half n orderly state) (waiting : Waiting state)
include inv waiting

/-- A leader that has nothing left to signal returns, one that has goes on. -/
theorem releaseNext_rounds {before : State ι} {chain : List ι}
    (moved : MovesFrom state (releaseNext before party mode chain) party (state.pc party))
    (frame : Untouched state before party) (captured : before.captured party = state.captured party)
    (value : before.value party = state.value party)
    (source : inWaitAt (state.pc party) (state.value party) = true ∧
      leadsAt (state.pc party) = false ∧ countsAt (state.pc party) (state.value party) = false)
    (complete : ownValue (state.pc party) = leaderValue mode) :
    Rounds half n orderly (releaseNext before party mode chain) := by
  have frame : Untouched state (releaseNext before party mode chain) party := by
    cases chain <;>
      exact ⟨frame.word, frame.rounds, frame.round, frame.captured, frame.entries, frame.aux⟩
  cases chain with
  | nil =>
    refine inv.leave waiting moved frame ?_ source.2.1 (Or.inl source.2.2)
    cases mode with
    | wait => simp [releaseNext, releaseReturn, inWaitAt, countsAt, waitsAt]
    | poll waker =>
      have returned : (before.signal party).value = .returned :=
        value.trans (waiting.owned party .returned complete)
      simp [releaseNext, releaseReturn, inWaitAt, countsAt, waitsAt, returned, valueWaits]
  | cons node rest =>
    refine inv.stay waiting moved frame captured ?_ ?_ ?_ (Or.inl ?_)
    · refine ⟨fun _ => source.1, ?_, ?_, ?_, ?_, ?_⟩ <;>
        simp [releaseNext, capturesAt, leadsAt, generationAt, completedAt, withdrawsAt]
    · rw [source.2.1]
      simp [releaseNext, leadsAt, pushingAt]
    · simp [releaseNext, waitsAt]
    · rw [source.2.2]
      simp [releaseNext, countsAt, waitsAt]

theorem releaseTake_rounds {node : ι} {rest : List ι}
    (source : state.pc party = .releaseTake mode node rest)
    (moved : MovesFrom state (releaseTake state party mode node rest) party (state.pc party)) :
    Rounds half n orderly (releaseTake state party mode node rest) := by
  refine inv.follow waiting moved ⟨rfl, rfl, rfl, fun _ _ => rfl, rfl,
    fun node _ => aux_update (by rfl) node⟩ rfl ?_
  constructor <;>
    simp [releaseTake, source, inWaitAt, countsAt, capturesAt, leadsAt, generationAt, completedAt,
      withdrawsAt, pushingAt, waitsAt]

theorem releasePublish_rounds {node : ι} {rest : List ι}
    (source : state.pc party = .releasePublish mode node rest)
    (moved : MovesFrom state (releasePublish state party mode node rest) party (state.pc party)) :
    Rounds half n orderly (releasePublish state party mode node rest) := by
  have apart : party ≠ node :=
    ((waiting.publishes source (show discipline.chain _ = node :: rest from rfl)).1).symm
  refine releaseNext_rounds inv waiting moved ⟨rfl, rfl, rfl, fun _ _ => rfl, rfl,
    fun node _ => aux_update (by rfl) node⟩ rfl ?_ (by rw [source]; exact ⟨rfl, rfl, rfl⟩)
    (by rw [source]; rfl)
  simp [apart]

theorem enqueueLock_rounds {expected : ℕ} (source : state.pc party = .enqueueLock mode expected)
    (moved : MovesFrom state next party (state.pc party))
    (stepped : enqueueLock state party mode expected = some next) : Rounds half n orderly next := by
  unfold enqueueLock at stepped
  split at stepped <;> cases stepped
  rename_i held result
  obtain ⟨-, rfl, -⟩ := WaitQueue.lock_acquired result
  refine inv.follow waiting moved ⟨rfl, rfl, rfl, fun _ _ => rfl, rfl, fun _ _ => rfl⟩ rfl ?_
  constructor <;>
    simp [source, inWaitAt, countsAt, capturesAt, leadsAt, generationAt, completedAt, withdrawsAt,
      pushingAt, waitsAt]

theorem enqueueUnlock_rounds {enqueued : Bool}
    (source : state.pc party = .enqueueUnlock mode enqueued) :
    Rounds half n orderly (enqueueUnlock state party mode enqueued) := by
  have moved : MovesFrom state (enqueueUnlock state party mode enqueued) party (state.pc party) :=
    source ▸ enqueueUnlock_moves source
  have ended : enqueued = false → state.round party < state.rounds := fun completed =>
    (inv.known party).completed (by simp [source, completed, completedAt])
  cases mode <;> cases enqueued
  · refine inv.leave waiting moved ⟨rfl, rfl, rfl, fun _ _ => rfl, rfl, fun _ _ => rfl⟩ ?_ ?_
      (Or.inr (ended rfl))
    · simp [enqueueUnlock, inWaitAt, countsAt, waitsAt]
    · simp [source, leadsAt]
  · refine inv.follow waiting moved ⟨rfl, rfl, rfl, fun _ _ => rfl, rfl, fun _ _ => rfl⟩ rfl ?_
    constructor <;>
      simp [enqueueUnlock, source, modeWaits, inWaitAt, countsAt, capturesAt, leadsAt, generationAt,
        completedAt, withdrawsAt, pushingAt, waitsAt]
  · refine inv.leave waiting moved ⟨rfl, rfl, rfl, fun _ _ => rfl, rfl,
      fun node _ => aux_update (by rfl) node⟩ ?_ ?_ (Or.inr (ended rfl))
    · simp [enqueueUnlock, inWaitAt, countsAt, waitsAt, valueWaits]
    · simp [source, leadsAt]
  · refine inv.follow waiting moved ⟨rfl, rfl, rfl, fun _ _ => rfl, rfl, fun _ _ => rfl⟩ rfl ?_
    constructor <;>
      simp [enqueueUnlock, source, modeWaits, Mode.isPoll, inWaitAt, countsAt, capturesAt, leadsAt,
        generationAt, completedAt, withdrawsAt, pushingAt, waitsAt]

theorem waitSwap_rounds (source : state.pc party = .waitSwap) :
    Rounds half n orderly (waitSwap state party) := by
  have moved : MovesFrom state (waitSwap state party) party (state.pc party) :=
    source ▸ waitSwap_moves waiting source
  unfold waitSwap at moved ⊢
  dsimp only at moved ⊢
  split at moved
  · rename_i reaches
    rw [if_pos reaches]
    refine inv.leave waiting moved ⟨rfl, rfl, rfl, fun _ _ => rfl, rfl,
      fun node _ => aux_update (by rfl) node⟩ ?_ ?_ (Or.inr ?_)
    · simp [inWaitAt, countsAt, waitsAt]
    · simp [source, leadsAt]
    · exact inv.signalled_over waiting (by simp [source, waitsAt]) (reachesAll_isFinal reaches)
  · rename_i below
    rw [if_neg below]
    refine inv.follow waiting moved ⟨rfl, rfl, rfl, fun _ _ => rfl, rfl,
      fun node _ => aux_update (by rfl) node⟩ rfl ?_
    constructor <;>
      simp [source, inWaitAt, countsAt, capturesAt, leadsAt, generationAt, completedAt, withdrawsAt,
        pushingAt, waitsAt]

theorem waitPark_rounds (source : state.pc party = .waitPark)
    (moved : MovesFrom state next party (state.pc party))
    (stepped : waitPark state party = some next) : Rounds half n orderly next := by
  unfold waitPark at stepped
  split at stepped <;> cases stepped
  rename_i reaches
  refine inv.leave waiting moved ⟨rfl, rfl, rfl, fun _ _ => rfl, rfl, fun _ _ => rfl⟩ ?_ ?_
    (Or.inr ?_)
  · simp [inWaitAt, countsAt, waitsAt]
  · simp [source, leadsAt]
  · exact inv.signalled_over waiting (by simp [source, waitsAt]) (reachesAll_isFinal reaches)

/-- The end of a poll: the future was not waiting, or it has been signalled. -/
theorem pollValue_rounds {waker : Waker}
    (moved : MovesFrom state (pollValue state party waker (state.value party)) party
      (state.pc party))
    (source : ∀ value, waitsAt (state.pc party) value = valueWaits value ∧
      countsAt (state.pc party) value = valueWaits value)
    (role : leadsAt (state.pc party) = false) (different : state.value party ≠ .initWaiting) :
    Rounds half n orderly (pollValue state party waker (state.value party)) := by
  have counts : countsAt (state.pc party) (state.value party) = false ∨
      state.round party < state.rounds := by
    by_cases waited : valueWaits (state.value party) = true
    · exact Or.inr (inv.signalled_over waiting ((source _).1.trans waited)
        (isFinal_of_valueWaits waited different))
    · exact Or.inl ((source _).2.trans (Bool.eq_false_iff.mpr waited))
  unfold pollValue at moved ⊢
  split at moved
  · rename_i reaches
    rw [if_pos reaches]
    split at moved
    · rename_i returned
      rw [if_pos returned]
      refine inv.leave waiting moved ⟨rfl, rfl, rfl, fun _ _ => rfl, rfl, fun _ _ => rfl⟩
        ?_ role counts
      simp [inWaitAt, countsAt, waitsAt, returned, valueWaits]
    · rename_i returned
      rw [if_neg returned]
      refine inv.leave waiting moved ⟨rfl, rfl, rfl, fun _ _ => rfl, rfl,
        fun node _ => aux_update (by rfl) node⟩ ?_ role counts
      simp [inWaitAt, countsAt, waitsAt, valueWaits]
  · rename_i below
    rw [if_neg below]
    refine inv.leave waiting moved ⟨rfl, rfl, rfl, fun _ _ => rfl, rfl, fun _ _ => rfl⟩
      ?_ role counts
    simp [inWaitAt, countsAt, waitsAt]

theorem rearmRegister_rounds {waker : Waker} (source : state.pc party = .rearmRegister waker) :
    Rounds half n orderly (rearmRegister state party waker) := by
  have moved : MovesFrom state (rearmRegister state party waker) party (state.pc party) :=
    source ▸ rearmRegister_moves source
  cases answer : (state.signal party).registered waker <;>
    simp only [rearmRegister, answer] at moved ⊢
  all_goals
    refine inv.follow waiting moved ⟨rfl, rfl, rfl, fun _ _ => rfl, rfl,
      fun node _ => aux_update (by rfl) node⟩ rfl ?_
    constructor <;>
      simp [source, inWaitAt, countsAt, capturesAt, leadsAt, generationAt, completedAt, withdrawsAt,
        pushingAt, waitsAt]

theorem rearmLoad_rounds {waker : Waker} (source : state.pc party = .rearmLoad waker) :
    Rounds half n orderly (rearmLoad state party waker) := by
  have moved : MovesFrom state (rearmLoad state party waker) party (state.pc party) :=
    source ▸ rearmLoad_moves source
  unfold rearmLoad at moved ⊢
  dsimp only at moved ⊢
  split at moved
  · rename_i final
    rw [if_pos final]
    refine pollValue_rounds inv waiting moved (fun value => by rw [source]; exact ⟨rfl, rfl⟩)
      (by rw [source]; rfl) fun waits => ?_
    rw [show (state.signal party).value = .initWaiting from waits] at final
    cases final
  · rename_i unsignalled
    rw [if_neg unsignalled]
    refine inv.follow waiting moved ⟨rfl, rfl, rfl, fun _ _ => rfl, rfl, fun _ _ => rfl⟩ rfl ?_
    constructor <;>
      simp [source, inWaitAt, countsAt, capturesAt, leadsAt, generationAt, completedAt, withdrawsAt,
        pushingAt, waitsAt]

end

/-- The arrivals fit into the low half of the word. -/
theorem Rounds.fits (inv : Rounds half n orderly state) (small : n ≤ arrivedMask half) :
    arrivals state < 2 ^ half := by
  have below := inv.count.below
  unfold arrivedMask at small
  omega

/-- The loop of `drop_slow` reads another generation only when the round of the party is over. -/
theorem Rounds.over_of_generation (inv : Rounds half n orderly state) (small : n ≤ arrivedMask half)
    (inside : inWaitAt (state.pc party) (state.value party) = true)
    (different : generation half state.word ≠ state.round party % 2 ^ half) :
    state.round party < state.rounds := by
  refine lt_of_le_of_ne ((inv.known party).bounded inside) fun current => different ?_
  rw [inv.count.word, generation_packed (inv.fits small), current]

section

variable (inv : Rounds half n orderly state) (waiting : Waiting state)
include inv waiting

theorem withdrawTry_rounds (small : n ≤ arrivedMask half)
    (moved : MovesFrom state (withdrawTry half state party state.word) party (state.pc party))
    (source : state.pc party = .withdrawLoad ∨ ∃ cur, state.pc party = .withdrawCas cur) :
    Rounds half n orderly (withdrawTry half state party state.word) := by
  have said : inWaitAt (state.pc party) (state.value party) = true ∧
      countsAt (state.pc party) (state.value party) = true ∧
      capturesAt (state.pc party) (state.value party) = true ∧
      waitsAt (state.pc party) (state.value party) = true ∧ leadsAt (state.pc party) = false := by
    rcases source with source | ⟨cur, source⟩ <;> rw [source] <;> exact ⟨rfl, rfl, rfl, rfl, rfl⟩
  obtain ⟨inside, counts, captures, waits, role⟩ := said
  unfold withdrawTry at moved ⊢
  split at moved
  · rename_i forming
    rw [if_pos forming]
    refine inv.stay waiting moved ⟨rfl, rfl, rfl, fun _ _ => rfl, rfl, fun _ _ => rfl⟩ rfl ?_ ?_ ?_
      (Or.inl ?_)
    · refine ⟨fun _ => inside, ?_, ?_, fun _ => captures, ?_, ?_⟩ <;>
        simp [leadsAt, generationAt, completedAt, withdrawsAt, forming]
    · rw [role]
      simp [leadsAt, pushingAt]
    · exact fun _ => waits
    · rw [counts]
      simp [countsAt, waitsAt]
  · rename_i ended
    rw [if_neg ended]
    refine inv.stay waiting moved ⟨rfl, rfl, rfl, fun _ _ => rfl, rfl, fun _ _ => rfl⟩ rfl ?_ ?_ ?_
      (Or.inr ?_)
    · refine ⟨fun _ => inside, ?_, ?_, fun _ => captures, ?_, ?_⟩ <;>
        simp [leadsAt, generationAt, completedAt, withdrawsAt]
    · rw [role]
      simp [leadsAt, pushingAt]
    · exact fun _ => waits
    · refine inv.over_of_generation small inside fun same => ended ?_
      rw [same, (inv.known party).captured captures]

theorem removeLock_rounds (source : state.pc party = .removeLock)
    (moved : MovesFrom state next party (state.pc party))
    (stepped : removeLock state party = some next) : Rounds half n orderly next := by
  unfold removeLock at stepped
  split at stepped <;> cases stepped
  · refine inv.follow waiting moved ⟨rfl, rfl, rfl, fun _ _ => rfl, rfl, fun _ _ => rfl⟩ rfl ?_
    constructor <;>
      simp [source, inWaitAt, countsAt, capturesAt, leadsAt, generationAt, completedAt, withdrawsAt,
        pushingAt, waitsAt]
  · rename_i held result
    obtain ⟨-, rfl, -⟩ := WaitQueue.lock_acquired result
    refine inv.follow waiting moved ⟨rfl, rfl, rfl, fun _ _ => rfl, rfl, fun _ _ => rfl⟩ rfl ?_
    constructor <;>
      simp [source, inWaitAt, countsAt, capturesAt, leadsAt, generationAt, completedAt, withdrawsAt,
        pushingAt, waitsAt]

theorem removeUnlock_rounds {found : Bool} (source : state.pc party = .removeUnlock found)
    (moved : MovesFrom state (removeUnlock state party found) party (state.pc party)) :
    Rounds half n orderly (removeUnlock state party found) := by
  cases found with
  | true =>
    refine inv.leave waiting moved ⟨rfl, rfl, rfl, fun _ _ => rfl, rfl, fun _ _ => rfl⟩ ?_ ?_
      (Or.inl ?_)
    · simp [removeUnlock, inWaitAt, countsAt, waitsAt]
    · simp [source, leadsAt]
    · simp [source, countsAt]
  | false =>
    refine inv.follow waiting moved ⟨rfl, rfl, rfl, fun _ _ => rfl, rfl, fun _ _ => rfl⟩ rfl ?_
    constructor <;>
      simp [removeUnlock, source, inWaitAt, countsAt, capturesAt, leadsAt, generationAt,
        completedAt, withdrawsAt, pushingAt, waitsAt]

theorem dropSpin_rounds (source : state.pc party = .dropSpin)
    (moved : MovesFrom state next party (state.pc party))
    (stepped : dropSpin state party = some next) : Rounds half n orderly next := by
  unfold dropSpin at stepped
  split at stepped <;> cases stepped
  refine inv.leave waiting moved ⟨rfl, rfl, rfl, fun _ _ => rfl, rfl, fun _ _ => rfl⟩ ?_ ?_
    (Or.inl ?_)
  · simp [inWaitAt, countsAt, waitsAt]
  · simp [source, leadsAt]
  · simp [source, countsAt]

theorem drop_rounds (source : state.pc party = .future)
    (moved : MovesFrom state (drop state party) party (state.pc party)) :
    Rounds half n orderly (drop state party) := by
  by_cases waits : (state.signal party).value = .initWaiting
  · simp only [drop, if_pos waits] at moved ⊢
    refine inv.follow waiting moved ⟨rfl, rfl, rfl, fun _ _ => rfl, rfl, fun _ _ => rfl⟩ rfl ?_
    constructor <;>
      simp [source, waits, valueWaits, inWaitAt, countsAt, capturesAt, leadsAt, generationAt,
        completedAt, withdrawsAt, pushingAt, waitsAt]
  · simp only [drop, if_neg waits] at moved ⊢
    refine inv.leave waiting moved ⟨rfl, rfl, rfl, fun _ _ => rfl, rfl, fun _ _ => rfl⟩ ?_ ?_ ?_
    · simp [inWaitAt, countsAt, waitsAt]
    · simp [source, leadsAt]
    · by_cases waited : valueWaits (state.signal party).value = true
      · exact Or.inr (inv.signalled_over waiting (by rw [source]; exact waited)
          (isFinal_of_valueWaits waited waits))
      · exact Or.inl (by rw [source]; exact Bool.eq_false_iff.mpr waited)

theorem poll_rounds {waker : Waker} (source : state.pc party = .future)
    (moved : MovesFrom state (poll state party waker) party (state.pc party)) :
    Rounds half n orderly (poll state party waker) := by
  by_cases waits : (state.signal party).value = .initWaiting
  · simp only [poll, if_pos waits] at moved ⊢
    refine inv.follow waiting moved ⟨rfl, rfl, rfl, fun _ _ => rfl, rfl, fun _ _ => rfl⟩ rfl ?_
    constructor <;>
      simp [source, inWaitAt, countsAt, capturesAt, leadsAt, generationAt, completedAt, withdrawsAt,
        pushingAt, waitsAt]
  · simp only [poll, if_neg waits] at moved ⊢
    exact pollValue_rounds inv waiting moved (fun value => by rw [source]; exact ⟨rfl, rfl⟩)
      (by rw [source]; rfl) waits

end

end Quiet

/-! ### Arrivals -/

section Arrivals

variable {half n : ℕ} {orderly : Prop} {state next : State ι} {party : ι} {mode : Mode}

/-- **An arrival.** A completing one becomes the leader of the round it ends, so that it covers
every node of that round. -/
theorem Rounds.arrive (inv : Rounds half n orderly state) (waiting : Waiting state)
    (moved : MovesFrom state next party (state.pc party))
    (outside : inWaitAt (state.pc party) (state.value party) = false)
    (round : next.round = Function.update state.round party state.rounds)
    (captured : ∀ other, other ≠ party → next.captured other = state.captured other)
    (entries : next.queue.entries = state.queue.entries)
    (signals : ∀ other, other ≠ party → next.signal other = state.signal other)
    (rounds : next.rounds = state.rounds ∨
      (next.rounds = state.rounds + 1 ∧ leadsAt (next.pc party) = true))
    (self : Local half next party) (pushing : pushingAt (next.pc party) = false)
    (free : waitsAt (next.pc party) (next.value party) = false) (count : Count half n next) :
    Rounds half n orderly next := by
  obtain ⟨-, -, notLeading, -, -, -, -, notWaiting⟩ := outside_wait outside
  have kept : ∀ other, other ≠ party → next.round other = state.round other :=
    fun other different => by
    rw [round, Function.update_of_ne different]
  have grows : state.rounds ≤ next.rounds := by
    rcases rounds with same | ⟨more, -⟩ <;> omega
  have absent : ∀ node ∈ state.queue.entries, node ≠ party := fun node member same => by
    have waits : waitsAt (state.pc node) (state.value node) = true := (waiting.queued member).1
    rw [same, notWaiting] at waits
    cases waits
  have covered : ∀ node, node ≠ party → Covered state node → Covered next node := by
    intro node different covered
    rcases covered with current | ⟨leader, leads, same⟩
    · rcases rounds with equal | ⟨-, leads⟩
      · exact Or.inl (by rw [kept node different, current, equal])
      · exact Or.inr
          ⟨party, leads, by rw [kept node different, round, Function.update_self, current]⟩
    · have other : leader ≠ party := fun self => by
        rw [self, notLeading] at leads
        cases leads
      exact Or.inr ⟨leader, by rw [pc_other moved other, leads],
        by rw [kept leader other, kept node different, same]⟩
  refine ⟨fun other => ?_, count, ?_⟩
  · by_cases same : other = party
    · exact same ▸ self
    · exact (inv.known other).unmoved waiting moved same grows (kept other same)
        (captured other same)
  · refine ⟨?_, ?_, ?_, ?_, ?_⟩
    · intro node member
      rw [entries] at member
      rw [signals node (absent node member), kept node (absent node member)]
      exact inv.queue.stamped node member
    · rw [entries]
      refine inv.queue.sorted.imp_of_mem fun {first second} left right order => ?_
      rw [kept first (absent first left), kept second (absent second right)]
      exact order
    · intro runs node member
      rw [entries] at member
      exact covered node (absent node member) (inv.queue.covered runs node member)
    · intro node push
      have different : node ≠ party := fun same => by
        rw [same, pushing] at push
        cases push
      rw [pc_other moved different] at push
      obtain ⟨cover, order⟩ := inv.queue.pushing node push
      refine ⟨fun runs => covered node different (cover runs), fun other member => ?_⟩
      rw [entries] at member
      rw [kept other (absent other member), kept node different]
      exact order other member
    · intro node waits apart
      have different : node ≠ party := fun same => by
        rw [same, free] at waits
        cases waits
      rw [trait_other steady_waitsAt waiting moved different] at waits
      rw [kept node different]
      exact (inv.queue.popped node waits (entries ▸ apart)).trans_le grows

/-- The count after a completing arrival. -/
theorem Rounds.count_completing (inv : Rounds half n orderly state) (waiting : Waiting state)
    (moved : MovesFrom state next party (state.pc party))
    (word : next.word = packed half (state.rounds + 1) 0) (rounds : next.rounds = state.rounds + 1)
    (round : ∀ other, other ≠ party → next.round other = state.round other)
    (counts : countsAt (next.pc party) (next.value party) = false) : Count half n next := by
  have none : ∀ other, share next other = 0 := fun other => by
    refine share_eq_zero fun counted => ?_
    by_cases same : other = party
    · rw [same, counts] at counted
      cases counted
    · rw [trait_other steady_countsAt waiting moved same] at counted
      have inside : inWaitAt (state.pc other) (state.value other) = true := by
        by_contra outside
        rw [(outside_wait (Bool.eq_false_iff.mpr outside)).1] at counted
        cases counted
      have bounded := (inv.known other).bounded inside
      rw [round other same, rounds]
      omega
  have total : arrivals next = 0 := Finset.sum_eq_zero fun other _ => none other
  exact ⟨by rw [word, rounds, total], by rw [total]; exact Nat.zero_lt_of_lt inv.count.below⟩

/-- The count after an arrival that waits. -/
theorem count_waiting (waiting : Waiting state)
    (moved : MovesFrom state next party (state.pc party))
    (outside : inWaitAt (state.pc party) (state.value party) = false)
    (word : next.word = packed half state.rounds (arrivals state + 1))
    (rounds : next.rounds = state.rounds)
    (round : next.round = Function.update state.round party state.rounds)
    (counts : countsAt (next.pc party) (next.value party) = true) (more : arrivals state + 1 < n) :
    Count half n next := by
  have exchange : arrivals next + share state party = arrivals state + share next party :=
    sum_exchange party fun other different =>
      share_other waiting moved different rounds (by rw [round, Function.update_of_ne different])
  have before : share state party = 0 := share_eq_zero fun counted => by
    rw [(outside_wait outside).1] at counted
    cases counted
  have after : share next party = 1 :=
    share_eq_one counts (by rw [round, Function.update_self, rounds])
  have total : arrivals next = arrivals state + 1 := by omega
  exact ⟨by rw [word, rounds, total], by rw [total]; exact more⟩

/-- A completing arrival. -/
theorem Rounds.completing (inv : Rounds half n orderly state) (mode : Mode)
    (waiting : Waiting state) (moved : MovesFrom state next party (state.pc party))
    (outside : inWaitAt (state.pc party) (state.value party) = false)
    (result : next = arriveLeader { state with
        word := packed half (state.rounds + 1) 0
        round := Function.update state.round party state.rounds
        rounds := state.rounds + 1 } party mode (state.rounds % 2 ^ half)) :
    Rounds half n orderly next := by
  have at' : next.pc party = .releaseLock mode (state.rounds % 2 ^ half) := by simp [result]
  have own : next.round party = state.rounds := by simp [result]
  have total : next.rounds = state.rounds + 1 := by simp [result]
  refine inv.arrive waiting moved outside (by simp [result]) (fun other _ => by simp [result])
    (by simp [result]) (fun other different => by simp [result, arriveLeader_signal, different])
    (Or.inr ⟨total, by rw [at']; rfl⟩) ?_ (by rw [at']; rfl) (by rw [at']; rfl) ?_
  · exact {
      bounded := fun _ => by omega
      ahead := fun _ => by omega
      agrees := fun carried same => by
        rw [at'] at same
        cases same
        rw [own]
      captured := fun captures => by simp [at', capturesAt] at captures
      completed := fun complete => by simp [at', completedAt] at complete
      withdraws := fun cur read => by simp [at', withdrawsAt] at read }
  · exact inv.count_completing waiting moved (by simp [result]) total
      (fun other different => by simp [result, different]) (by rw [at']; rfl)

/-- An arrival that waits. -/
theorem Rounds.waiting (inv : Rounds half n orderly state) (mode : Mode) (waiting : Waiting state)
    (moved : MovesFrom state next party (state.pc party))
    (outside : inWaitAt (state.pc party) (state.value party) = false)
    (more : arrivals state + 1 < n)
    (result : next = arriveWait { state with
        word := packed half state.rounds (arrivals state + 1)
        round := Function.update state.round party state.rounds } party mode
      (state.rounds % 2 ^ half)) : Rounds half n orderly next := by
  have at' : next.pc party = .enqueueLock mode (state.rounds % 2 ^ half) := by simp [result]
  have own : next.round party = state.rounds := by simp [result]
  have total : next.rounds = state.rounds := by simp [result]
  refine inv.arrive waiting moved outside (by simp [result])
    (fun other different => by simp [result, arriveWait_captured, different])
    (by simp [result]) (fun other different => by simp [result, arriveWait_signal, different])
    (Or.inl total) ?_ (by rw [at']; rfl) (by rw [at']; rfl) ?_
  · exact {
      bounded := fun _ => by omega
      ahead := fun leads => by simp [at', leadsAt] at leads
      agrees := fun carried same => by
        rw [at'] at same
        cases same
        rw [own]
      captured := fun captures => by
        rw [at'] at captures
        cases mode with
        | wait => cases captures
        | poll waker => rw [own, result, arriveWait_captured_poll]
      completed := fun complete => by simp [at', completedAt] at complete
      withdraws := fun cur read => by simp [at', withdrawsAt] at read }
  · exact count_waiting waiting moved outside (by simp [result]) total (by simp [result])
      (by rw [at']; rfl) more

theorem arriveCas_rounds {cur : ℕ} (inv : Rounds half n orderly state) (waiting : Waiting state)
    (small : n ≤ arrivedMask half) (source : state.pc party = .arriveCas mode cur) :
    Rounds half n orderly (arriveCas half n state party mode cur) := by
  have moved : MovesFrom state (arriveCas half n state party mode cur) party (state.pc party) :=
    source ▸ arriveCas_moves source
  have outside : inWaitAt (state.pc party) (state.value party) = false := by
    rw [source]
    rfl
  have below := inv.count.below
  have fits : arrivals state + 1 < 2 ^ half := by
    unfold arrivedMask at small
    omega
  have carried : generation half state.word = state.rounds % 2 ^ half := by
    rw [inv.count.word, generation_packed (by omega)]
  by_cases success : state.word = cur
  · subst success
    by_cases last : n ≤ arrivals state + 1
    · have word : arriveNext half n state.word = packed half (state.rounds + 1) 0 := by
        rw [inv.count.word, arriveNext_completing (by omega) last]
      refine inv.completing mode waiting moved outside ?_
      simp only [arriveCas, if_true, word, arrived_packed (Nat.two_pow_pos half), carried]
    · have word : arriveNext half n state.word = packed half state.rounds (arrivals state + 1) := by
        rw [inv.count.word, arriveNext_waiting (by omega) (by omega)]
      refine inv.waiting mode waiting moved outside (by omega) ?_
      simp only [arriveCas, if_true, word, arrived_packed fits, carried]
      exact if_neg (by omega)
  · simp only [arriveCas, if_neg success] at moved ⊢
    refine inv.leave waiting moved ⟨rfl, rfl, rfl, fun _ _ => rfl, rfl, fun _ _ => rfl⟩ ?_ ?_ ?_
    · simp [inWaitAt, countsAt, waitsAt]
    · simp [source, leadsAt]
    · simp [source, countsAt, waitsAt]

end Arrivals

/-! ### The leader's drain -/

/-- Fewer than `2 ^ half` rounds complete during one wait. -/
def NoWrap (half : ℕ) (state : State ι) : Prop :=
  ∀ party, inWaitAt (state.pc party) (state.value party) = true →
    state.rounds < state.round party + 2 ^ half

instance (half : ℕ) (state : State ι) : Decidable (NoWrap half state) :=
  inferInstanceAs (Decidable (∀ _, _ → _))

/-- A leader that drains finds a node of its own generation in front, or none in the queue. -/
def drainsOwn (state : State ι) (label : Label ι) : Bool :=
  match label.2, state.pc label.1 with
  | .advance, .releaseDrain _ generation =>
    state.queue.entries.head?.any (fun node => (state.signal node).aux = generation) ||
      state.queue.entries.all fun node => (state.signal node).aux ≠ generation
  | _, _ => true

section Drain

variable {half n : ℕ} {orderly : Prop} {state next : State ι} {party : ι} {mode : Mode}

theorem waitsAt_inWaitAt {pc : Pc ι} {value : SignalValue} (waits : waitsAt pc value = true) :
    inWaitAt pc value = true := by
  by_contra outside
  have free := (outside_wait (Bool.eq_false_iff.mpr outside)).2.2.2.2.2.2.2
  rw [waits] at free
  cases free

/-- A linked node is inside its wait. -/
theorem inWait_of_queued (waiting : Waiting state) {node : ι}
    (member : node ∈ state.queue.entries) : inWaitAt (state.pc node) (state.value node) = true :=
  waitsAt_inWaitAt (waiting.queued member).1

/-- Without wrap-around, equal generations are equal rounds. -/
theorem Rounds.round_eq (inv : Rounds half n orderly state) (bounded : NoWrap half state)
    {first second : ι} (left : inWaitAt (state.pc first) (state.value first) = true)
    (right : inWaitAt (state.pc second) (state.value second) = true)
    (same : state.round first % 2 ^ half = state.round second % 2 ^ half) :
    state.round first = state.round second := by
  have firstLow := (inv.known first).bounded left
  have secondLow := (inv.known second).bounded right
  have firstHigh := bounded first left
  have secondHigh := bounded second right
  rcases Nat.le_total (state.round first) (state.round second) with order | order
  · exact round_eq_of_mod order (by omega) same
  · exact (round_eq_of_mod order (by omega) same.symm).symm

/-- Which linked nodes a leader takes for its own. -/
theorem Rounds.stamped_iff {expected : ℕ} (inv : Rounds half n orderly state)
    (waiting : Waiting state)
    (bounded : NoWrap half state) (source : state.pc party = .releaseDrain mode expected) {node : ι}
    (member : node ∈ state.queue.entries) :
    (state.signal node).aux = expected ↔ state.round node = state.round party := by
  have leader : inWaitAt (state.pc party) (state.value party) = true := by
    rw [source]
    rfl
  rw [inv.queue.stamped node member, (inv.known party).agrees expected (by rw [source]; rfl)]
  exact ⟨inv.round_eq bounded (inWait_of_queued waiting member) leader, fun same => by rw [same]⟩

/-- Behind the nodes a leader pops there is none of its round. -/
theorem Rounds.drained {expected : ℕ} (inv : Rounds half n orderly state) (waiting : Waiting state)
    (bounded : NoWrap half state) (source : state.pc party = .releaseDrain mode expected)
    (own : drainsOwn state (party, .advance) = true) {node : ι}
    (member : node ∈ state.queue.entries.dropWhile
      fun node => decide ((state.signal node).aux = expected)) :
    state.round node ≠ state.round party := by
  have linked : node ∈ state.queue.entries := (List.dropWhile_sublist _).subset member
  simp only [drainsOwn, source, Bool.or_eq_true] at own
  rcases own with inFront | absent
  · -- the queue is ordered by rounds, and its first node is of the leader's round
    obtain ⟨front, first, stamp⟩ := (Option.any_eq_true _ _).mp inFront
    obtain ⟨rest, shape⟩ := List.head?_eq_some_iff.mp first
    have frontMember : front ∈ state.queue.entries := shape ▸ List.mem_cons_self
    have frontRound := (inv.stamped_iff waiting bounded source frontMember).mp
      (of_decide_eq_true stamp)
    refine ordered_dropWhile _ inv.queue.sorted (fun other inQueue => ?_) (fun other inQueue => ?_)
      node member
    · have sorted := inv.queue.sorted
      rw [shape] at sorted inQueue
      rcases List.mem_cons.mp inQueue with rfl | inRest
      · exact frontRound.ge
      · exact frontRound ▸ (List.pairwise_cons.mp sorted).1 other inRest
    · rw [decide_eq_true_eq]
      exact inv.stamped_iff waiting bounded source inQueue
  · intro same
    have stamp := (inv.stamped_iff waiting bounded source linked).mpr same
    simpa [stamp] using List.all_eq_true.mp absent node linked

/-- Nobody else is about to push while `party` holds the tag-lock. -/
theorem not_pushing (waiting : Waiting state) (held : lockedAt (state.pc party) = true) {node : ι}
    (push : pushingAt (state.pc node) = true) : node = party := by
  refine waiting.lock_unique ?_ held
  revert push
  cases source : state.pc node <;> simp [pushingAt, State.waiters, source, discipline, lockedAt]

theorem releaseDrain_rounds {expected : ℕ} (inv : Rounds half n orderly state)
    (waiting : Waiting state)
    (bounded : NoWrap half state) (source : state.pc party = .releaseDrain mode expected)
    (own : orderly → drainsOwn state (party, .advance) = true)
    (moved : MovesFrom state (releaseDrain state party mode expected) party (state.pc party)) :
    Rounds half n orderly (releaseDrain state party mode expected) := by
  have leader : inWaitAt (state.pc party) (state.value party) = true := by
    rw [source]
    rfl
  have shrinks := List.dropWhile_sublist (l := state.queue.entries)
    fun node => decide ((state.signal node).aux = expected)
  refine ⟨fun other => ?_, ?_, ?_⟩
  · by_cases same : other = party
    · subst same
      refine (inv.known other).alike ?_ rfl rfl fun _ => rfl
      refine ⟨fun _ => leader, ?_, ?_, ?_, ?_, ?_⟩ <;>
        simp [releaseDrain, capturesAt, leadsAt, generationAt, completedAt, withdrawsAt]
    · exact (inv.known other).unmoved waiting moved same le_rfl rfl rfl
  · refine inv.count.alike waiting moved rfl rfl rfl (Or.inl ?_)
    simp [releaseDrain, source, countsAt, waitsAt]
  · refine ⟨fun node member => inv.queue.stamped node (shrinks.subset member),
      inv.queue.sorted.sublist shrinks, ?_, ?_, ?_⟩
    · intro runs node member
      rcases inv.queue.covered runs node (shrinks.subset member) with current | ⟨other, leads, same⟩
      · exact Or.inl current
      · have different : other ≠ party := fun self =>
          inv.drained waiting bounded source (own runs) member (by rw [← same, self])
        exact Or.inr ⟨other, by rw [pc_other moved different, leads], same⟩
    · intro node push
      by_cases self : node = party
      · subst self
        simp [releaseDrain, pushingAt] at push
      · rw [pc_other moved self] at push
        exact absurd (not_pushing waiting (by rw [source]; rfl) push) self
    · intro node waits apart
      have different : node ≠ party := fun self => by
        subst self
        simp [releaseDrain, waitsAt] at waits
      rw [trait_other steady_waitsAt waiting moved different] at waits
      by_cases linked : node ∈ state.queue.entries
      · -- the node was popped just now
        have taken : node ∈ state.queue.entries.takeWhile
            fun node => decide ((state.signal node).aux = expected) := by
          rw [← List.takeWhile_append_dropWhile (p := fun node =>
            decide ((state.signal node).aux = expected)) (l := state.queue.entries)] at linked
          exact (List.mem_append.mp linked).resolve_right apart
        have stamp : (state.signal node).aux = expected := by
          simpa using List.mem_takeWhile_imp taken
        have round := (inv.stamped_iff waiting bounded source linked).mp stamp
        show state.round node < state.rounds
        rw [round]
        exact (inv.known party).ahead (by rw [source]; rfl)
      · exact inv.queue.popped node waits linked

/-- `lock(false)` of a leader: if it finds no queue there is nobody to cover. -/
theorem releaseLock_rounds {expected : ℕ} (inv : Rounds half n orderly state)
    (waiting : Waiting state) (source : state.pc party = .releaseLock mode expected)
    (stepped : releaseLock state party mode expected = some next) : Rounds half n orderly next := by
  have moved : MovesFrom state next party (state.pc party) :=
    source ▸ releaseLock_moves waiting source stepped
  unfold releaseLock at stepped
  split at stepped <;> cases stepped
  · rename_i absent
    obtain ⟨free, none, -⟩ := WaitQueue.lock_absent absent
    have outside : inWaitAt ((releaseReturn state party mode).pc party)
        ((releaseReturn state party mode).value party) = false := by
      cases mode with
      | wait => simp [releaseReturn, inWaitAt, countsAt, waitsAt]
      | poll waker =>
        have returned : (state.signal party).value = .returned :=
          waiting.owned party .returned (congrArg ownValue source)
        simp [releaseReturn, inWaitAt, countsAt, waitsAt, returned, valueWaits]
    obtain ⟨count, -, -, -, -, pushing, -, free'⟩ := outside_wait outside
    refine ⟨inv.known_unmoved waiting moved ⟨rfl, rfl, rfl, fun _ _ => rfl, rfl, fun _ _ => rfl⟩
      (Local.outside outside), ?_, ?_⟩
    · refine inv.count.alike waiting moved rfl rfl rfl (Or.inl (count.trans ?_))
      simp [source, countsAt, waitsAt]
    · have empty : (releaseReturn state party mode).queue.entries = [] := none
      refine ⟨?_, ?_, ?_, ?_, ?_⟩
      · simp [empty]
      · simp [empty]
      · simp [empty]
      · intro node push
        by_cases self : node = party
        · rw [self, pushing] at push
          cases push
        · -- a pushing party would hold the tag-lock
          rw [pc_other moved self] at push
          have held : lockedAt (state.pc node) = true := by
            revert push
            cases state.pc node <;> simp [pushingAt, lockedAt]
          have holder := (waiting.lock node).mp held
          rw [show state.waiters.queue = state.queue from rfl, free] at holder
          cases holder
      · intro node waits _
        exact inv.queue.popped_alike waiting moved rfl rfl (fun waited => by simp [free'] at waited)
          node waits (by simp [none])
  · rename_i held result
    obtain ⟨-, rfl, -⟩ := WaitQueue.lock_acquired result
    refine inv.follow waiting moved ⟨rfl, rfl, rfl, fun _ _ => rfl, rfl, fun _ _ => rfl⟩ rfl ?_
    constructor <;>
      simp [source, inWaitAt, countsAt, capturesAt, leadsAt, generationAt, completedAt, withdrawsAt,
        pushingAt, waitsAt]

end Drain

/-! ### Parking and withdrawing -/

section Parking

variable {half n : ℕ} {orderly : Prop} {state next : State ι} {party : ι} {mode : Mode}

section

variable (inv : Rounds half n orderly state)
include inv

/-- The read-modify-write under the tag-lock: the round of the party is over, or it is the current
one and every linked node is of that round or an earlier one. -/
theorem enqueueFresh_rounds {expected : ℕ} (waiting : Waiting state) (small : n ≤ arrivedMask half)
    (bounded : NoWrap half state) (source : state.pc party = .enqueueFresh mode expected)
    (moved : MovesFrom state (enqueueFresh half state party mode expected) party (state.pc party)) :
    Rounds half n orderly (enqueueFresh half state party mode expected) := by
  have inside : inWaitAt (state.pc party) (state.value party) = true := by
    rw [source]
    rfl
  have carried := (inv.known party).agrees expected (by rw [source]; rfl)
  by_cases ended : generation half state.word ≠ expected
  · have past : state.round party < state.rounds :=
      inv.over_of_generation small inside (carried ▸ ended)
    simp only [enqueueFresh, if_pos ended] at moved ⊢
    refine ⟨inv.known_unmoved waiting moved ⟨rfl, rfl, rfl, fun _ _ => rfl, rfl, fun _ _ => rfl⟩ ?_,
      ?_, ?_⟩
    · exact {
        bounded := fun _ => past.le
        ahead := fun leads => by simp [leadsAt] at leads
        agrees := fun value carries => by simp [generationAt] at carries
        captured := fun captures => (inv.known party).captured (by
          simp only [State.goto, Function.update_self, capturesAt, Bool.and_eq_true] at captures
          rw [source]
          exact captures.1)
        completed := fun _ => past
        withdraws := fun cur read => by simp [withdrawsAt] at read }
    · exact inv.count.alike waiting moved rfl rfl rfl (Or.inr past)
    · exact inv.queue.alike waiting moved rfl rfl rfl (fun _ _ => rfl)
        (fun leads => by simp [source, leadsAt] at leads)
        (fun push => by simp [pushingAt] at push) (fun waits => by simp [waitsAt] at waits)
  · have current : state.round party = state.rounds := by
      have low := (inv.known party).bounded inside
      have high := bounded party inside
      refine round_eq_of_mod low high ?_
      rw [← carried, ← not_not.mp ended, inv.count.word, generation_packed (inv.fits small)]
    simp only [enqueueFresh, if_neg ended] at moved ⊢
    refine ⟨inv.known_unmoved waiting moved ⟨rfl, rfl, rfl, fun _ _ => rfl, rfl, fun _ _ => rfl⟩ ?_,
      ?_, ?_⟩
    · refine (inv.known party).alike ?_ rfl rfl fun _ => rfl
      constructor <;> simp [source, inWaitAt, countsAt, capturesAt, leadsAt, generationAt,
        completedAt, withdrawsAt]
    · refine inv.count.alike waiting moved rfl rfl rfl (Or.inl ?_)
      simp [source, countsAt]
    · refine inv.queue.alike waiting moved rfl rfl rfl (fun _ _ => rfl)
        (fun leads => by simp [source, leadsAt] at leads) (fun _ => ⟨fun _ => Or.inl current, ?_⟩)
        (fun waits => by simp [waitsAt] at waits)
      intro other member
      rw [current]
      exact (inv.known other).bounded (inWait_of_queued waiting member)

theorem enqueuePush_rounds {expected : ℕ} (waiting : Waiting state)
    (source : state.pc party = .enqueuePush mode expected) :
    Rounds half n orderly (enqueuePush state party mode expected) := by
  have moved : MovesFrom state (enqueuePush state party mode expected) party (state.pc party) :=
    source ▸ enqueuePush_moves waiting source
  have value : (state.signal party).value = armedValue mode :=
    waiting.owned party _ (congrArg ownValue source)
  have armed := modeWaits_armedValue mode
  have fresh : party ∉ state.queue.entries := fun member => by
    have waits : waitsAt (state.pc party) (state.value party) = true := (waiting.queued member).1
    rw [source] at waits
    cases waits
  obtain ⟨covered, order⟩ := inv.queue.pushing party (by rw [source]; rfl)
  have leads : leadsAt (state.pc party) = true →
      leadsAt ((enqueuePush state party mode expected).pc party) = true := fun leading => by
    simp [source, leadsAt] at leading
  refine ⟨fun other => ?_, ?_, ?_⟩
  · by_cases same : other = party
    · subst same
      refine (inv.known other).alike ?_ rfl rfl fun _ => rfl
      constructor <;>
        simp [enqueuePush, source, inWaitAt, countsAt, capturesAt, leadsAt, generationAt,
        completedAt, withdrawsAt]
      exact fun polls _ => polls
    · exact (inv.known other).unmoved waiting moved same le_rfl rfl rfl
  · refine inv.count.alike waiting moved rfl rfl rfl (Or.inl ?_)
    simp [enqueuePush, source, countsAt, value, armed]
  · have entries : (enqueuePush state party mode expected).queue.entries =
        state.queue.entries ++ [party] := rfl
    refine ⟨?_, ?_, ?_, ?_, ?_⟩
    · intro node member
      rw [entries, List.mem_append, List.mem_singleton] at member
      by_cases self : node = party
      · subst self
        have carried := (inv.known node).agrees expected (by rw [source]; rfl)
        simp [enqueuePush, carried]
      · have linked := member.resolve_right self
        simpa [enqueuePush, self] using inv.queue.stamped node linked
    · rw [entries, List.pairwise_append]
      refine ⟨inv.queue.sorted, List.pairwise_singleton _ _, fun node member last single => ?_⟩
      rw [List.mem_singleton.mp single]
      exact order node member
    · intro runs node member
      rw [entries, List.mem_append, List.mem_singleton] at member
      rcases member with linked | rfl
      · exact (inv.queue.covered runs node linked).alike moved rfl rfl leads
      · exact (covered runs).alike moved rfl rfl leads
    · intro node push
      by_cases self : node = party
      · subst self
        simp [enqueuePush, pushingAt] at push
      · rw [pc_other moved self] at push
        exact absurd (not_pushing waiting (by rw [source]; rfl) push) self
    · intro node waits apart
      rw [entries, List.mem_append, List.mem_singleton, not_or] at apart
      rw [trait_other steady_waitsAt waiting moved apart.2] at waits
      exact inv.queue.popped node waits apart.1

/-- A withdrawal takes back an arrival of the current round, so that the count does not borrow from
the generation. -/
theorem Rounds.withdraw {cur : ℕ} (waiting : Waiting state) (fits : arrivals state < 2 ^ half)
    (source : state.pc party = .withdrawCas cur) (current : state.round party = state.rounds)
    (result : next = { state with word := withdrawNext half state.word }.goto party .removeLock)
    (moved : MovesFrom state next party (state.pc party)) : Rounds half n orderly next := by
  have at' : next.pc party = .removeLock := by simp [result]
  have exchange : arrivals next + share state party = arrivals state + share next party :=
    sum_exchange party fun other different =>
      share_other waiting moved different (by simp [result]) (by simp [result])
  have before : share state party = 1 := share_eq_one (by rw [source]; rfl) current
  have after : share next party = 0 := share_eq_zero fun counted => by
    rw [at'] at counted
    cases counted
  have total : arrivals state = arrivals next + 1 := by omega
  have below := inv.count.below
  have frame : next.rounds = state.rounds ∧ next.round = state.round ∧
      next.captured = state.captured ∧ next.queue = state.queue ∧ next.signal = state.signal := by
    simp [result]
  obtain ⟨rounds, round, captured, queue, signal⟩ := frame
  refine ⟨fun other => ?_, ⟨?_, by omega⟩, ?_⟩
  · by_cases same : other = party
    · subst same
      refine (inv.known other).alike ?_ rounds (by rw [round]) fun _ => by rw [captured]
      constructor <;> simp [at', source, inWaitAt, countsAt, capturesAt, leadsAt, generationAt,
        completedAt, withdrawsAt, waitsAt]
    · exact (inv.known other).unmoved waiting moved same rounds.ge (by rw [round])
        (by rw [captured])
  · have word : next.word = withdrawNext half state.word := by simp [result]
    rw [word, inv.count.word, total, rounds, withdrawNext_packed (by omega)]
  · refine inv.queue.alike waiting moved rounds round (by rw [queue]) (fun _ _ => by rw [signal]) ?_
      ?_ ?_
    · simp [source, leadsAt]
    · simp [at', pushingAt]
    · simp [source, waitsAt]

/-- A withdrawal whose `compare_exchange_weak` succeeds is of the round that is forming. -/
theorem Rounds.withdraws_current (small : n ≤ arrivedMask half) (bounded : NoWrap half state)
    (source : state.pc party = .withdrawCas state.word) : state.round party = state.rounds := by
  have inside : inWaitAt (state.pc party) (state.value party) = true := by
    rw [source]
    rfl
  refine round_eq_of_mod ((inv.known party).bounded inside) (bounded party inside) ?_
  rw [← (inv.known party).captured (by rw [source]; rfl),
    ← (inv.known party).withdraws state.word (by rw [source]; rfl), inv.count.word,
    generation_packed (inv.fits small)]

theorem withdrawCas_rounds {cur : ℕ} (waiting : Waiting state) (small : n ≤ arrivedMask half)
    (bounded : NoWrap half state) (source : state.pc party = .withdrawCas cur)
    (moved : MovesFrom state (withdrawCas half state party cur) party (state.pc party)) :
    Rounds half n orderly (withdrawCas half state party cur) := by
  by_cases success : state.word = cur
  · subst success
    refine inv.withdraw waiting (inv.fits small) source (inv.withdraws_current small bounded source)
      ?_ moved
    rw [withdrawCas, if_pos rfl]
  · simp only [withdrawCas, if_neg success] at moved ⊢
    exact withdrawTry_rounds inv waiting small moved (Or.inr ⟨cur, source⟩)

theorem removeNode_rounds (waiting : Waiting state) (source : state.pc party = .removeNode) :
    Rounds half n orderly (removeNode state party) := by
  have moved : MovesFrom state (removeNode state party) party (state.pc party) :=
    source ▸ removeNode_moves source
  have entries : (removeNode state party).queue.entries = state.queue.entries.erase party := rfl
  have shrinks : (state.queue.entries.erase party).Sublist state.queue.entries := List.erase_sublist
  have leads : leadsAt (state.pc party) = true →
      leadsAt ((removeNode state party).pc party) = true := fun leading => by
    simp [source, leadsAt] at leading
  refine ⟨fun other => ?_, ?_, ?_⟩
  · by_cases same : other = party
    · subst same
      refine (inv.known other).alike ?_ rfl rfl fun _ => rfl
      constructor <;> simp [removeNode, source, inWaitAt, capturesAt, leadsAt, generationAt,
        completedAt, withdrawsAt]
    · exact (inv.known other).unmoved waiting moved same le_rfl rfl rfl
  · refine inv.count.alike waiting moved rfl rfl rfl (Or.inl ?_)
    simp [removeNode, source, countsAt]
  · refine ⟨fun node member => inv.queue.stamped node (shrinks.subset member),
      inv.queue.sorted.sublist shrinks,
      fun runs node member =>
        (inv.queue.covered runs node (shrinks.subset member)).alike moved rfl rfl leads, ?_, ?_⟩
    · intro node push
      by_cases self : node = party
      · subst self
        simp [removeNode, pushingAt] at push
      · rw [pc_other moved self] at push
        exact absurd (not_pushing waiting (by rw [source]; rfl) push) self
    · intro node waits apart
      by_cases self : node = party
      · subst self
        simp only [removeNode, State.goto, Function.update_self, waitsAt, Bool.not_eq_true',
          decide_eq_false_iff_not] at waits
        exact inv.queue.popped node (by rw [source]; rfl) waits
      · rw [trait_other steady_waitsAt waiting moved self] at waits
        refine inv.queue.popped node waits fun linked => apart ?_
        rw [entries]
        exact (List.mem_erase_of_ne self).mpr linked

end

end Parking

end Xutex.Barrier
