/-
**The account of every push.**

`Passed` counts over the whole run. To speak of a single push, the observer also keeps what it had
counted when the node was linked: what is counted from there until the node is linked again, or
until now, is what became of this push.

* `Account`, `Account.record` — the counts, and the counts at each push of each node.
* `Account.removed`, `Account.popped`, `Account.signalled` — how often these happened to one push.
* `Accounted` — **every push is still linked, or was unlinked once by its owner, or was popped once
  and signalled at most once, and only one of these.**
* `Accounted.step` — every effect of `Waiters` keeps the account.
-/

import Xutex.Core.Passage

set_option linter.unusedSectionVars false

namespace Xutex

open Concurrency Discipline

/-- What has been seen of every push. -/
structure Account (ι : Type) where
  now : Passage ι
  /-- What had been seen when the node was linked for the `push`-th time. -/
  opened : ι → ℕ → Passage ι

namespace Account

variable {ι Pc : Type} [DecidableEq ι]

/-- Nothing has been seen. -/
def new : Account ι := ⟨.new, fun _ _ => .new⟩

/-- A step of `party` is seen. -/
def record (chain : Pc → List ι) (account : Account ι) (before after : Waiters ι Pc) (party : ι) :
    Account ι where
  now := account.now.record chain before after party
  opened node push :=
    if before.queue.entries.count node < after.queue.entries.count node ∧
      push = account.now.pushed node then account.now
    else account.opened node push

/-- What had been seen when the push was over, or is seen now. -/
def closed (account : Account ι) (node : ι) (push : ℕ) : Passage ι :=
  if push + 1 < account.now.pushed node then account.opened node (push + 1) else account.now

/-- How often the owner unlinked the node during this push. -/
def removed (account : Account ι) (node : ι) (push : ℕ) : ℕ :=
  (account.closed node push).removed node - (account.opened node push).removed node

/-- How often the node was popped during this push. -/
def popped (account : Account ι) (node : ι) (push : ℕ) : ℕ :=
  (account.closed node push).popped node - (account.opened node push).popped node

/-- How often the node was signalled during this push. -/
def signalled (account : Account ι) (node : ι) (push : ℕ) : ℕ :=
  (account.closed node push).signalled node - (account.opened node push).signalled node

end Account

namespace Discipline

variable {ι Pc : Type} [DecidableEq ι] (discipline : Discipline ι Pc)

/-- When a node is linked, every earlier push of it is over. -/
structure Opened (passage : Passage ι) (node : ι) (push : ℕ) : Prop where
  ended : passage.removed node + passage.popped node = push
  signalled : passage.signalled node = passage.popped node

/-- The counts of `node` only grow. -/
structure Grows (node : ι) (earlier later : Passage ι) : Prop where
  removed : earlier.removed node ≤ later.removed node
  popped : earlier.popped node ≤ later.popped node
  signalled : earlier.signalled node ≤ later.signalled node

/-- **The counts at the pushes fit the counts now.** -/
structure Accounted (waiters : Waiters ι Pc) (account : Account ι) : Prop where
  passed : discipline.Passed waiters account.now
  opened : ∀ node push, push < account.now.pushed node → Opened (account.opened node push) node push
  grows : ∀ node push, push < account.now.pushed node →
    Grows node (account.opened node push) (account.closed node push)

variable {discipline} {before after : Waiters ι Pc} {party node : ι} {pc pc' : Pc}
  {account : Account ι}

theorem Grows.rfl {passage : Passage ι} : Grows node passage passage := ⟨le_rfl, le_rfl, le_rfl⟩

theorem Grows.record {passage earlier : Passage ι} {chain : Pc → List ι}
    (grows : Grows node earlier passage) :
    Grows node earlier (passage.record chain before after party) :=
  ⟨Nat.le_add_right_of_le grows.removed, Nat.le_add_right_of_le grows.popped,
    Nat.le_add_right_of_le grows.signalled⟩

/-- A node that is linked anew was nowhere. -/
theorem Moves.linked_anew (moves : discipline.Moves before after party pc pc')
    (kept : discipline.Kept before)
    (more : before.queue.entries.count node < after.queue.entries.count node) :
    before.queue.entries.count node = 0 ∧ after.queue.entries.count node = 1 ∧
      ¬discipline.Chained before node := by
  have fewer (sublist : after.queue.entries.Sublist before.queue.entries) :
      before.queue.entries.count node = 0 ∧ after.queue.entries.count node = 1 ∧
        ¬discipline.Chained before node :=
    absurd (sublist.count_le node) (Nat.not_le.mpr more)
  cases moves.effect with
  | own queue => exact fewer (by rw [queue])
  | acquire free queue => exact fewer (by rw [queue])
  | release queue => exact fewer (by rw [queue]; exact .refl _)
  | push queue locked chain values fresh =>
    have absent := kept.fresh moves.source fresh
    have self : node = party := by
      by_contra different
      simp [queue, List.count_append, Ne.symm different] at more
    subst self
    have none := List.count_eq_zero_of_not_mem absent
    refine ⟨none, by simp [queue, List.count_append, none], ?_⟩
    rintro ⟨signaler, popped⟩
    have waits := (kept.popped popped).1
    rw [Waits, moves.source, fresh] at waits
    cases waits
  | pop taken rest front queue =>
    refine fewer ?_
    rw [front, queue]
    exact List.sublist_append_right _ _
  | remove member queue =>
    refine fewer ?_
    rw [queue]
    exact List.erase_sublist
  | publish popped signal kind queue => exact fewer (by rw [queue])
  | consume queue => exact fewer (by rw [queue])

section

variable (accounted : discipline.Accounted before account)
include accounted

/-- A step that does not link the node. -/
theorem Accounted.unlinked {push : ℕ}
    (same : ¬before.queue.entries.count node < after.queue.entries.count node)
    (past : push < (account.record discipline.chain before after party).now.pushed node) :
    Opened ((account.record discipline.chain before after party).opened node push) node push ∧
      Grows node ((account.record discipline.chain before after party).opened node push)
        ((account.record discipline.chain before after party).closed node push) := by
  have count : (account.record discipline.chain before after party).now.pushed node =
      account.now.pushed node := by
    simp only [Account.record, Passage.record]
    omega
  have opened (push : ℕ) : (account.record discipline.chain before after party).opened node push =
      account.opened node push := if_neg fun both => same both.1
  rw [count] at past
  have grows := accounted.grows node push past
  refine ⟨by rw [opened]; exact accounted.opened node push past, ?_⟩
  unfold Account.closed at grows ⊢
  rw [count, opened, opened]
  split
  · rwa [if_pos ‹_›] at grows
  · rw [if_neg ‹_›] at grows
    exact grows.record

/-- The step that links the node opens its next push, after the end of the one before. -/
theorem Accounted.linked (kept : discipline.Kept before)
    (moves : discipline.Moves before after party pc pc') {push : ℕ}
    (more : before.queue.entries.count node < after.queue.entries.count node)
    (past : push < (account.record discipline.chain before after party).now.pushed node) :
    Opened ((account.record discipline.chain before after party).opened node push) node push ∧
      Grows node ((account.record discipline.chain before after party).opened node push)
        ((account.record discipline.chain before after party).closed node push) := by
  obtain ⟨none, one, apart⟩ := moves.linked_anew kept more
  have count : (account.record discipline.chain before after party).now.pushed node =
      account.now.pushed node + 1 := by
    simp only [Account.record, Passage.record, none, one]
  have last : (account.record discipline.chain before after party).opened node
      (account.now.pushed node) = account.now := if_pos ⟨more, rfl⟩
  have opened {push : ℕ} (different : push ≠ account.now.pushed node) :
      (account.record discipline.chain before after party).opened node push =
      account.opened node push :=
    if_neg fun both => different both.2
  rw [count] at past
  rcases Nat.lt_or_eq_of_le (Nat.lt_succ_iff.mp past) with earlier | rfl
  · have grows := accounted.grows node push earlier
    rw [opened (Nat.ne_of_lt earlier)]
    refine ⟨accounted.opened node push earlier, ?_⟩
    unfold Account.closed at grows ⊢
    rw [count, if_pos (Nat.succ_lt_succ earlier)]
    by_cases next : push + 1 = account.now.pushed node
    · rw [next, last]
      rwa [if_neg (by omega)] at grows
    · rw [opened next]
      rwa [if_pos (by omega)] at grows
  · have total := accounted.passed.linked node
    rw [none] at total
    rw [last]
    refine ⟨⟨by omega, (accounted.passed.signalled node apart).symm⟩, ?_⟩
    unfold Account.closed
    rw [count, if_neg (lt_irrefl _)]
    exact Grows.rfl.record

/-- **Every step keeps the account.** -/
theorem Accounted.step (kept : discipline.Kept before)
    (moves : discipline.Moves before after party pc pc') :
    discipline.Accounted after (account.record discipline.chain before after party) := by
  have both (node : ι) (push : ℕ)
      (past : push < (account.record discipline.chain before after party).now.pushed node) :
      Opened ((account.record discipline.chain before after party).opened node push) node push ∧
        Grows node ((account.record discipline.chain before after party).opened node push)
          ((account.record discipline.chain before after party).closed node push) := by
    by_cases more : before.queue.entries.count node < after.queue.entries.count node
    · exact accounted.linked kept moves more past
    · exact accounted.unlinked more past
  exact ⟨accounted.passed.step kept moves, fun node push past => (both node push past).1,
    fun node push past => (both node push past).2⟩

/-- A step that touches no waiter. -/
theorem Accounted.same :
    discipline.Accounted before (account.record discipline.chain before before party) := by
  refine ⟨?_, fun node push past => (accounted.unlinked (lt_irrefl _) past).1,
    fun node push past => (accounted.unlinked (lt_irrefl _) past).2⟩
  obtain ⟨linked, unsignalled, signalled⟩ := accounted.passed
  constructor <;> simpa [Account.record, Passage.record]

end

theorem Accounted.new (entries : before.queue.entries = [])
    (chain : ∀ party, discipline.chain (before.pc party) = []) : discipline.Accounted before .new :=
  ⟨.new entries chain, (by rintro _ _ ⟨⟩), (by rintro _ _ ⟨⟩)⟩

/-! ### What became of a push -/

/-- **What became of a push**: it is the latest one and the node is linked; or its owner has
unlinked the node; or another party has popped it, and has signalled it once or not yet. -/
inductive Fate (waiters : Waiters ι Pc) (account : Account ι) (node : ι) (push : ℕ) : Prop
  | linked (latest : push + 1 = account.now.pushed node) (member : node ∈ waiters.queue.entries)
      (removed : account.removed node push = 0) (popped : account.popped node push = 0)
      (signalled : account.signalled node push = 0)
  | removed (gone : push + 1 = account.now.pushed node → node ∉ waiters.queue.entries)
      (removed : account.removed node push = 1) (popped : account.popped node push = 0)
      (signalled : account.signalled node push = 0)
  | popped (gone : push + 1 = account.now.pushed node → node ∉ waiters.queue.entries)
      (removed : account.removed node push = 0) (popped : account.popped node push = 1)
      (signalled : account.signalled node push ≤ 1)

/-- A push that was followed by another is over. -/
theorem Accounted.fate_earlier (accounted : discipline.Accounted before account) {push : ℕ}
    (earlier : push + 1 < account.now.pushed node) : Fate before account node push := by
  obtain ⟨began, even⟩ := accounted.opened node push (by omega)
  obtain ⟨ended, even'⟩ := accounted.opened node (push + 1) earlier
  obtain ⟨removed, popped, signalled⟩ := accounted.grows node push (by omega)
  simp only [Account.closed, if_pos earlier] at removed popped signalled
  rcases Nat.eq_or_lt_of_le popped with same | more
  · refine .removed (by omega) ?_ ?_ ?_ <;>
      simp only [Account.removed, Account.popped, Account.signalled, Account.closed,
        if_pos earlier] <;> omega
  · refine .popped (by omega) ?_ ?_ ?_ <;>
      simp only [Account.removed, Account.popped, Account.signalled, Account.closed,
        if_pos earlier] <;> omega

/-- The latest push of a node. -/
theorem Accounted.fate_latest (accounted : discipline.Accounted before account)
    (kept : discipline.Kept before)
    {push : ℕ} (latest : push + 1 = account.now.pushed node) : Fate before account node push := by
  obtain ⟨began, even⟩ := accounted.opened node push (by omega)
  obtain ⟨removed, popped, signalled⟩ := accounted.grows node push (by omega)
  have open' : ¬push + 1 < account.now.pushed node := by omega
  have total := accounted.passed.linked node
  have single : before.queue.entries.count node ≤ 1 :=
    List.nodup_iff_count_le_one.mp kept.placed.queue_nodup node
  have signals : account.now.popped node = account.now.signalled node ∨
      account.now.popped node = account.now.signalled node + 1 := by
    by_cases chained : discipline.Chained before node
    · exact .inr (accounted.passed.unsignalled node chained)
    · exact .inl (accounted.passed.signalled node chained)
  simp only [Account.closed, if_neg open'] at removed popped signalled
  by_cases member : node ∈ before.queue.entries
  · have present := List.count_pos_iff.mpr member
    have apart : ¬discipline.Chained before node := fun ⟨_, chained⟩ =>
      (kept.popped chained).2.2 member
    have all := accounted.passed.signalled node apart
    refine .linked latest member ?_ ?_ ?_ <;>
      simp only [Account.removed, Account.popped, Account.signalled, Account.closed,
        if_neg open'] <;> omega
  · rw [List.count_eq_zero_of_not_mem member] at total
    rcases Nat.eq_or_lt_of_le popped with same | more
    · refine .removed (fun _ => member) ?_ ?_ ?_ <;>
        simp only [Account.removed, Account.popped, Account.signalled, Account.closed,
          if_neg open'] <;> omega
    · refine .popped (fun _ => member) ?_ ?_ ?_ <;>
        simp only [Account.removed, Account.popped, Account.signalled, Account.closed,
          if_neg open'] <;> omega

/-- **Every push has one fate.** -/
theorem Accounted.fate (accounted : discipline.Accounted before account)
    (kept : discipline.Kept before)
    {push : ℕ} (past : push < account.now.pushed node) : Fate before account node push := by
  rcases Nat.lt_or_eq_of_le (Nat.succ_le_of_lt past) with earlier | latest
  · exact accounted.fate_earlier earlier
  · exact accounted.fate_latest kept latest

/-- A node that is not given away is in no queue and in no chain. -/
theorem Kept.nowhere (kept : discipline.Kept before)
    (free : discipline.waits (before.pc party) (valueOf before party) = false) :
    party ∉ before.queue.entries ∧ ∀ signaler, party ∉ discipline.chain (before.pc signaler) := by
  refine ⟨fun member => ?_, fun signaler chained => ?_⟩
  · exact Bool.false_ne_true (free.symm.trans (kept.queued member).1)
  · exact Bool.false_ne_true (free.symm.trans (kept.popped chained).1)

end Discipline

end Xutex
