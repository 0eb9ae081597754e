/-
**Rounds of the barrier: who is counted, who leads, and who may still be parked.**

The word of a reachable state is `packed half rounds arrivals`: the completed rounds modulo `2 ^
half` and the parties of the current round that have arrived and not withdrawn. Around it three
groups of facts are kept by every step:

* `Local` — what one party knows: the generation it carries is that of the round it arrived in, and
  that round is over once its leader was chosen.
* `Count` — the word, and fewer than `n` arrivals of the current round.
* `Queue` — the linked nodes carry the generations of their rounds, in the order of the rounds; a
  node whose round is over is `Covered` by a leader that has not drained yet, and a node that was
  popped belongs to a round that is over.

Generations are compared modulo `2 ^ half`; `NoWrap`, fewer than `2 ^ half` rounds during one wait,
makes that the comparison of rounds.
-/

import Xutex.Barrier.Waiting
import Xutex.Concurrency.Parties
import Mathlib.Data.Nat.ModEq
import Mathlib.Tactic.Ring

set_option linter.unusedSectionVars false

namespace Xutex.Barrier

open Concurrency Discipline

/-! ### The word -/

/-- The word after `rounds` rounds with `count` arrivals in the next one. -/
def packed (half rounds count : ℕ) : ℕ := rounds % 2 ^ half * 2 ^ half + count

section Word

variable {half n rounds count : ℕ}

theorem generation_packed (fits : count < 2 ^ half) :
    generation half (packed half rounds count) = rounds % 2 ^ half := by
  rw [generation, packed, Nat.shiftRight_eq_div_pow, Nat.add_comm,
    Nat.add_mul_div_right _ _ (Nat.two_pow_pos half), Nat.div_eq_of_lt fits, Nat.zero_add]

theorem arrived_packed (fits : count < 2 ^ half) :
    arrived half (packed half rounds count) = count := by
  rw [arrived, arrivedMask, Nat.and_two_pow_sub_one_eq_mod, packed, Nat.add_comm,
    Nat.add_mul_mod_self_right, Nat.mod_eq_of_lt fits]

theorem arriveNext_completing (fits : count < 2 ^ half) (last : n ≤ count + 1) :
    arriveNext half n (packed half rounds count) = packed half (rounds + 1) 0 := by
  rw [arriveNext, arrived_packed fits, if_pos last, generation_packed fits, packed,
    Nat.shiftLeft_eq, two_mul, pow_add, Nat.mul_mod_mul_right, Nat.mod_add_mod]
  exact (Nat.add_zero _).symm

theorem arriveNext_waiting (fits : count < 2 ^ half) (more : count + 1 < n) :
    arriveNext half n (packed half rounds count) = packed half rounds (count + 1) := by
  rw [arriveNext, arrived_packed fits, if_neg (Nat.not_le.mpr more), packed, packed, Nat.add_assoc]

theorem withdrawNext_packed (fits : count + 1 < 2 ^ half) :
    withdrawNext half (packed half rounds (count + 1)) = packed half rounds count := by
  have high : rounds % 2 ^ half < 2 ^ half := Nat.mod_lt _ (Nat.two_pow_pos half)
  have square : 2 ^ (2 * half) = 2 ^ half * 2 ^ half := by rw [two_mul, pow_add]
  have room : rounds % 2 ^ half * 2 ^ half + 2 ^ half ≤ 2 ^ half * 2 ^ half := by
    calc rounds % 2 ^ half * 2 ^ half + 2 ^ half = (rounds % 2 ^ half + 1) * 2 ^ half := by ring
      _ ≤ 2 ^ half * 2 ^ half := Nat.mul_le_mul_right _ high
  have shifted : packed half rounds (count + 1) + (2 ^ (2 * half) - 1) =
      packed half rounds count + 2 ^ (2 * half) := by
    rw [packed, packed, square]
    omega
  rw [withdrawNext, shifted, Nat.add_mod_right]
  refine Nat.mod_eq_of_lt ?_
  rw [packed, square]
  omega

/-- Two rounds less than `2 ^ half` apart with one generation are one round. -/
theorem round_eq_of_mod {first second : ℕ} (order : first ≤ second)
    (near : second < first + 2 ^ half)
    (same : first % 2 ^ half = second % 2 ^ half) : first = second := by
  have divides : 2 ^ half ∣ second - first := (Nat.modEq_iff_dvd' order).mp same
  have zero : second - first = 0 := Nat.eq_zero_of_dvd_of_lt divides (by omega)
  omega

end Word

/-! ### What a program point says about the round -/

variable {ι : Type} [DecidableEq ι]

/-- The arrival of the party is in the count, if its round is still forming. -/
def countsAt : Pc ι → SignalValue → Bool
  | .enqueueLock _ _, _ | .enqueueFresh _ _, _ | .enqueuePush _ _, _ => true
  | .enqueueUnlock mode enqueued, value => !enqueued || modeWaits mode value
  | .removeLock, _ | .removeNode, _ | .removeUnlock _, _ | .dropSpin, _ => false
  | pc, value => waitsAt pc value

/-- The party is between its arrival and the end of its wait. -/
def inWaitAt : Pc ι → SignalValue → Bool
  | .releaseLock _ _, _ | .releaseDrain _ _, _ | .releaseUnlock _ _, _ => true
  | .releaseTake _ _ _, _ | .releasePublish _ _ _, _ => true
  | .removeLock, _ | .removeNode, _ | .removeUnlock _, _ | .dropSpin, _ => true
  | pc, value => countsAt pc value

/-- The `generation` field of the party's future is the generation it arrived in. -/
def capturesAt : Pc ι → SignalValue → Bool
  | .enqueueLock mode _, _ | .enqueueFresh mode _, _ | .enqueuePush mode _, _ => mode.isPoll
  | .enqueueUnlock mode _, value => mode.isPoll && modeWaits mode value
  | .withdrawLoad, _ | .withdrawCas _, _ => true
  | .future, value | .rearmRegister _, value | .rearmLoad _, value => valueWaits value
  | _, _ => false

/-- A leader that has not drained the queue yet. -/
def leadsAt : Pc ι → Bool
  | .releaseLock _ _ | .releaseDrain _ _ => true
  | _ => false

/-- The generation the party carries in its call. -/
def generationAt : Pc ι → Option ℕ
  | .releaseLock _ generation | .releaseDrain _ generation => some generation
  | .enqueueLock _ generation | .enqueueFresh _ generation | .enqueuePush _ generation =>
    some generation
  | _ => none

/-- The party has seen that its round is over. -/
def completedAt : Pc ι → Bool
  | .enqueueUnlock _ enqueued => !enqueued
  | _ => false

/-- The party has seen that its round is forming and is about to link its node. -/
def pushingAt : Pc ι → Bool
  | .enqueuePush _ _ => true
  | _ => false

/-- The word a withdrawing party has read. -/
def withdrawsAt : Pc ι → Option ℕ
  | .withdrawCas cur => some cur
  | _ => none

/-- What is said of a party does not depend on whether it was signalled. -/
def Steady (trait : Pc ι → SignalValue → Bool) : Prop :=
  ∀ pc value signal, waitsAt pc value = true → waitsAt pc signal = true →
    trait pc signal = trait pc value

theorem steady_waitsAt : Steady (@waitsAt ι) := by
  intro pc value signal before after
  rw [before, after]

theorem steady_countsAt : Steady (@countsAt ι) := by
  intro pc value signal before after
  cases pc <;> simp_all [countsAt, waitsAt]

theorem steady_inWaitAt : Steady (@inWaitAt ι) := by
  intro pc value signal before after
  cases pc <;> simp_all [inWaitAt, countsAt, waitsAt]

theorem steady_capturesAt : Steady (@capturesAt ι) := by
  intro pc value signal before after
  cases pc <;> simp_all [capturesAt, waitsAt]

/-- The value of a party's node. -/
@[simp] abbrev State.value (state : State ι) (party : ι) : SignalValue := (state.signal party).value

section Frame

variable {state next : State ι} {party other : ι}

theorem pc_other (moved : MovesFrom state next party (state.pc party)) (different : other ≠ party) :
    next.pc other = state.pc other := by
  obtain ⟨pc', moves⟩ := moved
  exact moves.rest different

/-- What is said of a party that did not move is still said. -/
theorem trait_other {trait : Pc ι → SignalValue → Bool} (steady : Steady trait)
    (waiting : Waiting state)
    (moved : MovesFrom state next party (state.pc party)) (different : other ≠ party) :
    trait (next.pc other) (next.value other) = trait (state.pc other) (state.value other) := by
  rw [pc_other moved different]
  obtain ⟨pc', moves⟩ := moved
  rcases waiting.value_other moves different with same | ⟨before, after, -⟩
  · exact congrArg _ same
  · rw [Waits, moves.rest different] at after
    exact steady _ _ _ before after

end Frame

/-! ### What one party knows -/

/-- **What a party in a wait knows of its round.** -/
structure Local (half : ℕ) (state : State ι) (party : ι) : Prop where
  bounded : inWaitAt (state.pc party) (state.value party) = true → state.round party ≤ state.rounds
  ahead : leadsAt (state.pc party) = true → state.round party < state.rounds
  agrees : ∀ generation, generationAt (state.pc party) = some generation →
    generation = state.round party % 2 ^ half
  captured : capturesAt (state.pc party) (state.value party) = true →
    state.captured party = state.round party % 2 ^ half
  completed : completedAt (state.pc party) = true → state.round party < state.rounds
  withdraws : ∀ cur, withdrawsAt (state.pc party) = some cur →
    generation half cur = state.captured party

/-- The step neither makes an arrival nor a decision about the round: what the party knows after it,
it knew before. -/
structure Alike (half : ℕ) (state next : State ι) (party : ι) : Prop where
  inWait : inWaitAt (next.pc party) (next.value party) = true →
    inWaitAt (state.pc party) (state.value party) = true
  leads : leadsAt (next.pc party) = true → leadsAt (state.pc party) = true
  carries : ∀ carried, generationAt (next.pc party) = some carried →
    generationAt (state.pc party) = some carried
  captures : capturesAt (next.pc party) (next.value party) = true →
    capturesAt (state.pc party) (state.value party) = true
  completed : completedAt (next.pc party) = false
  withdraws : ∀ cur, withdrawsAt (next.pc party) = some cur →
    generation half cur = next.captured party

section Local

variable {half : ℕ} {state next : State ι} {party other : ι}

/-- A party that did not move knows what it knew. -/
theorem Local.unmoved (known : Local half state other) (waiting : Waiting state)
    (moved : MovesFrom state next party (state.pc party)) (different : other ≠ party)
    (rounds : state.rounds ≤ next.rounds) (round : next.round other = state.round other)
    (captured : next.captured other = state.captured other) : Local half next other where
  bounded inside := by
    rw [trait_other steady_inWaitAt waiting moved different] at inside
    rw [round]
    exact (known.bounded inside).trans rounds
  ahead leads := by
    rw [pc_other moved different] at leads
    rw [round]
    exact (known.ahead leads).trans_le rounds
  agrees generation carried := by
    rw [pc_other moved different] at carried
    rw [round]
    exact known.agrees generation carried
  captured captures := by
    rw [trait_other steady_capturesAt waiting moved different] at captures
    rw [round, captured]
    exact known.captured captures
  completed complete := by
    rw [pc_other moved different] at complete
    rw [round]
    exact (known.completed complete).trans_le rounds
  withdraws cur read := by
    rw [pc_other moved different] at read
    rw [captured]
    exact known.withdraws cur read

/-- Of the party that moved, when the step is not about the round. -/
theorem Local.alike (known : Local half state party) (alike : Alike half state next party)
    (rounds : next.rounds = state.rounds) (round : next.round party = state.round party)
    (captured : capturesAt (next.pc party) (next.value party) = true →
      next.captured party = state.captured party) : Local half next party where
  bounded inside := by
    rw [round, rounds]
    exact known.bounded (alike.inWait inside)
  ahead leads := by
    rw [round, rounds]
    exact known.ahead (alike.leads leads)
  agrees generation carried := by
    rw [round]
    exact known.agrees generation (alike.carries generation carried)
  captured captures := by
    rw [round, captured captures]
    exact known.captured (alike.captures captures)
  completed complete := by
    rw [alike.completed] at complete
    cases complete
  withdraws := alike.withdraws

end Local

/-! ### The count -/

section Count

variable [Fintype ι] {half n : ℕ} {state next : State ι} {party other : ι}

/-- One for a counted arrival of the current round. -/
def share (state : State ι) (party : ι) : ℕ :=
  if countsAt (state.pc party) (state.value party) = true ∧
    state.round party = state.rounds then 1 else 0

/-- The arrivals of the current round that have not been withdrawn. -/
def arrivals (state : State ι) : ℕ := ∑ party, share state party

/-- **The word of the barrier.** -/
structure Count (half n : ℕ) (state : State ι) : Prop where
  word : state.word = packed half state.rounds (arrivals state)
  below : arrivals state < n

theorem share_other (waiting : Waiting state) (moved : MovesFrom state next party (state.pc party))
    (different : other ≠ party) (rounds : next.rounds = state.rounds)
    (round : next.round other = state.round other) : share next other = share state other := by
  rw [share, trait_other steady_countsAt waiting moved different, rounds, round, share]

/-- A party that is not counted, or whose round is over, has no share. -/
theorem share_eq_zero (none : countsAt (state.pc party) (state.value party) = true →
    state.round party ≠ state.rounds) : share state party = 0 :=
  if_neg fun counted => none counted.1 counted.2

theorem share_eq_one (counts : countsAt (state.pc party) (state.value party) = true)
    (current : state.round party = state.rounds) : share state party = 1 :=
  if_pos ⟨counts, current⟩

/-- A step that leaves the word and the count of the moving party alone. -/
theorem Count.alike (count : Count half n state) (waiting : Waiting state)
    (moved : MovesFrom state next party (state.pc party)) (word : next.word = state.word)
    (rounds : next.rounds = state.rounds) (round : next.round = state.round)
    (counts : countsAt (next.pc party) (next.value party) =
      countsAt (state.pc party) (state.value party) ∨ state.round party < state.rounds) :
    Count half n next := by
  have same : ∀ other, share next other = share state other := fun other => by
    by_cases self : other = party
    · subst self
      rcases counts with equal | ended
      · rw [share, equal, rounds, round, share]
      · rw [share_eq_zero
          fun _ => by rw [round, rounds]; exact ended.ne, share_eq_zero fun _ => ended.ne]
    · exact share_other waiting moved self rounds (by rw [round])
  have total : arrivals next = arrivals state := Finset.sum_congr rfl fun other _ => same other
  exact ⟨by rw [word, rounds, total, count.word], by rw [total]; exact count.below⟩

end Count

/-! ### The queue -/

section Queue

variable {half : ℕ} {orderly : Prop} {state next : State ι} {party : ι}

/-- The round of the party is still forming, or its leader has not drained the queue yet. -/
def Covered (state : State ι) (party : ι) : Prop :=
  state.round party = state.rounds ∨
    ∃ leader, leadsAt (state.pc leader) = true ∧ state.round leader = state.round party

/-- **The linked nodes and their rounds.** Who covers a linked node is known in the orderly runs
only. -/
structure Queue (half : ℕ) (orderly : Prop) (state : State ι) : Prop where
  stamped : ∀ party ∈ state.queue.entries,
    (state.signal party).aux = state.round party % 2 ^ half
  sorted : state.queue.entries.Pairwise fun first second => state.round first ≤ state.round second
  covered : orderly → ∀ party ∈ state.queue.entries, Covered state party
  pushing : ∀ party, pushingAt (state.pc party) = true →
    (orderly → Covered state party) ∧ ∀ other ∈ state.queue.entries, state.round other ≤
    state.round party
  popped : ∀ party, waitsAt (state.pc party) (state.value party) = true →
    party ∉ state.queue.entries → state.round party < state.rounds

/-- A step after which every leader still leads covers what was covered. -/
theorem Covered.alike {node : ι} (covered : Covered state node)
    (moved : MovesFrom state next party (state.pc party)) (rounds : next.rounds = state.rounds)
    (round : next.round = state.round)
    (leads : leadsAt (state.pc party) = true → leadsAt (next.pc party) = true) :
    Covered next node := by
  rcases covered with current | ⟨leader, leading, same⟩
  · exact Or.inl (by rw [round, rounds, current])
  · refine Or.inr ⟨leader, ?_, by rw [round, same]⟩
    by_cases self : leader = party
    · subst self
      exact leads leading
    · rw [pc_other moved self]
      exact leading

/-- Who was popped: its round is over. -/
theorem Queue.popped_alike (queue : Queue half orderly state) (waiting : Waiting state)
    (moved : MovesFrom state next party (state.pc party)) (rounds : next.rounds = state.rounds)
    (round : next.round = state.round) (waits : waitsAt (next.pc party) (next.value party) = true →
      waitsAt (state.pc party) (state.value party) = true) (node : ι)
    (waited : waitsAt (next.pc node) (next.value node) = true)
    (absent : node ∉ state.queue.entries) : next.round node < next.rounds := by
  rw [round, rounds]
  refine queue.popped node ?_ absent
  by_cases self : node = party
  · subst self
    exact waits waited
  · rwa [trait_other steady_waitsAt waiting moved self] at waited

/-- A step that leaves the linked nodes alone. -/
theorem Queue.alike (queue : Queue half orderly state) (waiting : Waiting state)
    (moved : MovesFrom state next party (state.pc party)) (rounds : next.rounds = state.rounds)
    (round : next.round = state.round) (entries : next.queue.entries = state.queue.entries)
    (aux : ∀ node ∈ state.queue.entries, (next.signal node).aux = (state.signal node).aux)
    (leads : leadsAt (state.pc party) = true → leadsAt (next.pc party) = true)
    (pushing : pushingAt (next.pc party) = true → (orderly → Covered state party) ∧
      ∀ other ∈ state.queue.entries, state.round other ≤ state.round party)
    (waits : waitsAt (next.pc party) (next.value party) = true →
      waitsAt (state.pc party) (state.value party) = true) : Queue half orderly next where
  stamped node member := by
    rw [entries] at member
    rw [aux node member, round]
    exact queue.stamped node member
  sorted := by
    rw [entries, round]
    exact queue.sorted
  covered runs node member :=
    (queue.covered runs node (entries ▸ member)).alike moved rounds round leads
  pushing node push := by
    have before : (orderly → Covered state node) ∧
        ∀ other ∈ state.queue.entries, state.round other ≤ state.round node := by
      by_cases self : node = party
      · subst self
        exact pushing push
      · rw [pc_other moved self] at push
        exact queue.pushing node push
    rw [entries, round]
    exact ⟨fun runs => (before.1 runs).alike moved rounds round leads, before.2⟩
  popped node waited absent :=
    queue.popped_alike waiting moved rounds round waits node waited (entries ▸ absent)

end Queue

/-! ### The steps -/

/-- **The invariant of the rounds.** -/
structure Rounds [Fintype ι] (half n : ℕ) (orderly : Prop) (state : State ι) : Prop where
  known : ∀ party, Local half state party
  count : Count half n state
  queue : Queue half orderly state

/-- The step leaves the word, the rounds and the linked nodes alone. -/
structure Untouched (state next : State ι) (party : ι) : Prop where
  word : next.word = state.word
  rounds : next.rounds = state.rounds
  round : next.round = state.round
  captured : ∀ other, other ≠ party → next.captured other = state.captured other
  entries : next.queue.entries = state.queue.entries
  aux : ∀ node ∈ state.queue.entries, (next.signal node).aux = (state.signal node).aux

section Steps

variable [Fintype ι] {half n : ℕ} {orderly : Prop} {state next : State ι} {party : ι} {mode : Mode}

theorem Rounds.known_unmoved (inv : Rounds half n orderly state) (waiting : Waiting state)
    (moved : MovesFrom state next party (state.pc party)) (frame : Untouched state next party)
    (self : Local half next party) (other : ι) : Local half next other := by
  by_cases same : other = party
  · exact same ▸ self
  · exact (inv.known other).unmoved waiting moved same frame.rounds.ge (by rw [frame.round])
      (frame.captured other same)

/-- **A step that is not about the round**: the party stays in its wait. -/
theorem Rounds.stay (inv : Rounds half n orderly state) (waiting : Waiting state)
    (moved : MovesFrom state next party (state.pc party)) (frame : Untouched state next party)
    (captured : next.captured party = state.captured party) (alike : Alike half state next party)
    (role : leadsAt (next.pc party) = leadsAt (state.pc party) ∧ pushingAt (next.pc party) = false)
    (waits : waitsAt (next.pc party) (next.value party) = true →
      waitsAt (state.pc party) (state.value party) = true)
    (counts : countsAt (next.pc party) (next.value party) =
      countsAt (state.pc party) (state.value party) ∨ state.round party < state.rounds) :
    Rounds half n orderly next where
  known := inv.known_unmoved waiting moved frame
    ((inv.known party).alike alike frame.rounds (by rw [frame.round]) fun _ => captured)
  count := inv.count.alike waiting moved frame.word frame.rounds frame.round counts
  queue := inv.queue.alike waiting moved frame.rounds frame.round frame.entries frame.aux
    (fun leads => role.1.trans leads) (fun push => by simp [role.2] at push) waits

/-- The point `pc'` goes on with the wait of `pc`: it says no more of the round, counts the same,
and is no push. -/
structure Follows (pc pc' : Pc ι) (value value' : SignalValue) : Prop where
  inWait : inWaitAt pc' value' = true → inWaitAt pc value = true
  leads : leadsAt pc' = leadsAt pc
  carries : ∀ carried, generationAt pc' = some carried → generationAt pc = some carried
  captures : capturesAt pc' value' = true → capturesAt pc value = true
  completed : completedAt pc' = false
  withdraws : withdrawsAt pc' = none
  pushing : pushingAt pc' = false
  waits : waitsAt pc' value' = true → waitsAt pc value = true
  counts : countsAt pc' value' = countsAt pc value

/-- **A step from one point of a wait to the next.** -/
theorem Rounds.follow (inv : Rounds half n orderly state) (waiting : Waiting state)
    (moved : MovesFrom state next party (state.pc party)) (frame : Untouched state next party)
    (captured : next.captured party = state.captured party)
    (follows : Follows (state.pc party) (next.pc party) (state.value party) (next.value party)) :
    Rounds half n orderly next := by
  refine inv.stay waiting moved frame captured ⟨follows.inWait, follows.leads.symm.trans,
    follows.carries, follows.captures, follows.completed, fun cur reads => ?_⟩
    ⟨follows.leads, follows.pushing⟩ follows.waits (.inl follows.counts)
  cases follows.withdraws.symm.trans reads

/-- Everything a program point says about the round, it says inside a wait. -/
theorem outside_wait {pc : Pc ι} {value : SignalValue} (outside : inWaitAt pc value = false) :
    countsAt pc value = false ∧ capturesAt pc value = false ∧ leadsAt pc = false ∧
      generationAt pc = none ∧ completedAt pc = false ∧ pushingAt pc = false ∧
      withdrawsAt pc = none ∧ waitsAt pc value = false := by
  cases pc <;> simp_all [inWaitAt, countsAt, capturesAt, leadsAt, generationAt, completedAt,
    pushingAt, withdrawsAt, waitsAt]

theorem Local.outside (outside : inWaitAt (next.pc party) (next.value party) = false) :
    Local half next party := by
  obtain ⟨-, captures, leads, generation, completed, -, withdraws, -⟩ := outside_wait outside
  exact {
    bounded := fun inside => by simp [outside] at inside
    ahead := fun leading => by simp [leads] at leading
    agrees := fun value carried => by simp [generation] at carried
    captured := fun capturing => by simp [captures] at capturing
    completed := fun complete => by simp [completed] at complete
    withdraws := fun cur read => by simp [withdraws] at read }

/-- **A step out of a wait**, or outside of one. -/
theorem Rounds.leave (inv : Rounds half n orderly state) (waiting : Waiting state)
    (moved : MovesFrom state next party (state.pc party)) (frame : Untouched state next party)
    (outside : inWaitAt (next.pc party) (next.value party) = false)
    (role : leadsAt (state.pc party) = false)
    (counts : countsAt (state.pc party) (state.value party) = false ∨
      state.round party < state.rounds) : Rounds half n orderly next := by
  obtain ⟨count, -, -, -, -, pushing, -, waits⟩ := outside_wait outside
  refine ⟨inv.known_unmoved waiting moved frame (Local.outside outside), ?_, ?_⟩
  · exact inv.count.alike waiting moved frame.word frame.rounds frame.round
      (counts.imp (fun none => count.trans none.symm) id)
  · exact inv.queue.alike waiting moved frame.rounds frame.round frame.entries frame.aux
      (fun leading => by simp [role] at leading) (fun push => by simp [pushing] at push)
      (fun waited => by simp [waits] at waited)

/-- A node that was signalled belongs to a round that is over. -/
theorem Rounds.signalled_over (inv : Rounds half n orderly state) (waiting : Waiting state)
    (waits : waitsAt (state.pc party) (state.value party) = true)
    (final : (state.value party).isFinal = true) : state.round party < state.rounds := by
  refine inv.queue.popped party waits fun member => ?_
  have unsignalled := (waiting.queued member).2
  rw [show valueOf state.waiters party = state.value party from rfl, final] at unsignalled
  cases unsignalled

theorem aux_update {node : ι} {signal : Signal} (same : signal.aux = (state.signal node).aux)
    (other : ι) : (Function.update state.signal node signal other).aux =
    (state.signal other).aux := by
  by_cases self : other = node
  · subst self
    rw [Function.update_self, same]
  · rw [Function.update_of_ne self]

end Steps

end Xutex.Barrier
