/-
**Admission in order of arrival, by size.**

Requests of different sizes enter a line and leave it, and the total they share may grow. Admitted
are the requests of the longest front part of the line whose sizes sum up to at most the total. So
it depends on the line and on the total alone who is admitted, and not on how they came about.

* `LongestFront` — the longest front part that fits; `LongestFront.of_blocked`: it fits, and the
  next request does not fit behind it; `LongestFront.unique`: there is one.
* `Admission` — the line of the live requests and the total, with the events that change them.
* `Admission.add_split` — the total may grow in two parts.
* `Admission.delete` — a request that entered and left may as well never have come.
-/

import Mathlib.Algebra.BigOperators.Group.List.Basic
import Mathlib.Algebra.GroupWithZero.Nat
import Mathlib.Algebra.Order.BigOperators.Group.List
import Mathlib.Tactic.Common

namespace Concurrency

variable {κ : Type*}

/-! ### The longest front part that fits -/

/-- The sizes of the requests, summed up. -/
def demand (line : List (κ × ℕ)) : ℕ := (line.map Prod.snd).sum

@[simp] theorem demand_nil : demand ([] : List (κ × ℕ)) = 0 := rfl

@[simp] theorem demand_cons (request : κ × ℕ) (rest : List (κ × ℕ)) :
    demand (request :: rest) = request.2 + demand rest := by
  simp [demand]

@[simp] theorem demand_append (first second : List (κ × ℕ)) :
    demand (first ++ second) = demand first + demand second := by
  simp [demand]

/-- `front` is the longest front part of the line that asks for at most `total`. -/
structure LongestFront (total : ℕ) (line front : List (κ × ℕ)) : Prop where
  starts : front <+: line
  fits : demand front ≤ total
  longest : ∀ other, other <+: line → demand other ≤ total → other.length ≤ front.length

variable {total : ℕ} {line front rest other : List (κ × ℕ)}

/-- **A front part that fits is the longest one if the next request does not fit behind it.** -/
theorem LongestFront.of_blocked (fits : demand front ≤ total)
    (blocked : ∀ next ∈ rest.head?, total < demand front + next.2) :
    LongestFront total (front ++ rest) front := by
  refine ⟨List.prefix_append front rest, fits, fun other starts within => ?_⟩
  by_contra longer
  rw [not_le] at longer
  -- a longer front part contains the request that does not fit
  obtain ⟨more, rfl⟩ := List.prefix_of_prefix_length_le (List.prefix_append front rest)
    starts longer.le
  obtain ⟨after, split⟩ := starts
  rw [List.append_assoc, List.append_cancel_left_eq] at split
  cases more with
  | nil => simp at longer
  | cons next others =>
    have short := blocked next (by simp [← split])
    simp only [demand_append, demand_cons] at within
    omega

/-- There is one longest front part. -/
theorem LongestFront.unique (first : LongestFront total line front)
    (second : LongestFront total line other) : front = other := by
  have same : front.length = other.length :=
    le_antisymm (second.longest _ first.starts first.fits)
      (first.longest _ second.starts second.fits)
  exact (List.prefix_of_prefix_length_le first.starts second.starts same.le).eq_of_length same

/-! ### The line -/

/-- What can happen to the line. -/
inductive Event (κ : Type*)
  | enter (who : κ) (size : ℕ)
  | leave (who : κ)
  | add (more : ℕ)
  deriving DecidableEq, Repr

/-- The live requests in the order in which they entered, and what there is for them. -/
structure Admission (κ : Type*) where
  live : List (κ × ℕ)
  total : ℕ
  deriving DecidableEq, Repr

namespace Admission

variable [DecidableEq κ]

/-- An event, where it can happen: who enters has no live request, who leaves has one. -/
def apply (line : Admission κ) : Event κ → Option (Admission κ)
  | .enter who size =>
    if who ∈ line.live.map Prod.fst then none else some ⟨line.live ++ [(who, size)], line.total⟩
  | .leave who =>
    if who ∈ line.live.map Prod.fst then some ⟨line.live.filter (·.1 ≠ who), line.total⟩ else none
  | .add more => some ⟨line.live, line.total + more⟩

/-- One event after the other. -/
def run (line : Admission κ) (events : List (Event κ)) : Option (Admission κ) :=
  events.foldlM apply line

@[simp] theorem run_nil (line : Admission κ) : line.run [] = some line := rfl

@[simp] theorem run_cons (line : Admission κ) (event : Event κ) (events : List (Event κ)) :
    line.run (event :: events) = (line.apply event).bind (·.run events) := rfl

theorem run_append (line : Admission κ) (first second : List (Event κ)) :
    line.run (first ++ second) = (line.run first).bind (·.run second) :=
  List.foldlM_append

/-- The total does not shrink. -/
theorem total_le_apply {line next : Admission κ} {event : Event κ}
    (applied : line.apply event = some next) : line.total ≤ next.total := by
  unfold apply at applied
  split at applied
  · split at applied <;> cases applied
    exact le_rfl
  · split at applied <;> cases applied
    exact le_rfl
  · cases applied
    exact Nat.le_add_right ..

theorem total_le_run {line last : Admission κ} {events : List (Event κ)}
    (ran : line.run events = some last) : line.total ≤ last.total := by
  induction events generalizing line with
  | nil =>
    cases ran
    exact le_rfl
  | cons event events ih =>
    obtain ⟨next, applied, ran⟩ := Option.bind_eq_some_iff.mp ran
    exact (total_le_apply applied).trans (ih ran)

/-- **The total may grow in two parts.** -/
theorem add_split (line : Admission κ) (before after : List (Event κ)) (j k : ℕ) :
    line.run (before ++ .add j :: .add k :: after) =
      line.run (before ++ .add (j + k) :: after) := by
  simp only [run_append, run_cons, apply, Option.bind_some, Nat.add_assoc]

/-! ### A request that leaves again -/

/-- Who leaves is taken out of the line. -/
theorem filter_leave {who : κ} {size : ℕ} {front rest : List (κ × ℕ)}
    (outside : who ∉ (front ++ rest).map Prod.fst) :
    (front ++ (who, size) :: rest).filter (·.1 ≠ who) = front ++ rest := by
  have kept : (front ++ rest).filter (·.1 ≠ who) = front ++ rest :=
    List.filter_eq_self.mpr fun entry inside => by
      simpa using fun same => outside (List.mem_map.mpr ⟨entry, inside, same⟩)
  rw [List.filter_append] at kept
  rw [List.filter_append, List.filter_cons_of_neg (by simp), kept]

/-- The two lines differ by one request, which is in the first. -/
def Extra (request : κ × ℕ) (line other : Admission κ) : Prop :=
  ∃ front rest, line.live = front ++ request :: rest ∧ other = ⟨front ++ rest, line.total⟩ ∧
    request.1 ∉ (front ++ rest).map Prod.fst

variable {request : κ × ℕ} {line other next : Admission κ} {event : Event κ}

/-- What happens to the others happens in both lines. -/
theorem Extra.apply (extra : Extra request line other) (applied : line.apply event = some next)
    (stays : event ≠ .leave request.1) : ∃ same, other.apply event = some same ∧
    Extra request next same := by
  obtain ⟨front, rest, live, rfl, outside⟩ := extra
  simp only [List.map_append, List.mem_append, not_or] at outside
  cases event with
  | enter who size =>
    simp only [Admission.apply, live] at applied
    split at applied
    · cases applied
    · rename_i fresh
      cases applied
      simp only [List.map_append, List.map_cons, List.mem_append, List.mem_cons, not_or] at fresh
      obtain ⟨apartFront, different, apartRest⟩ := fresh
      refine ⟨_, if_neg ?_, front, rest ++ [(who, size)], ?_, ?_, ?_⟩
      · simp only [List.map_append, List.mem_append, not_or]
        exact ⟨apartFront, apartRest⟩
      · simp
      · simp
      · simp only [List.map_append, List.map_cons, List.map_nil, List.mem_append,
          List.mem_singleton, not_or]
        exact ⟨outside.1, outside.2, Ne.symm different⟩
  | leave who =>
    have different : request.1 ≠ who := fun same => stays (by rw [same])
    simp only [Admission.apply, live] at applied
    split at applied
    · rename_i inside
      cases applied
      simp only [List.map_append, List.map_cons, List.mem_append, List.mem_cons] at inside
      refine ⟨_, if_pos ?_, front.filter (·.1 ≠ who), rest.filter (·.1 ≠ who), ?_, ?_, ?_⟩
      · simp only [List.map_append, List.mem_append]
        exact inside.imp id fun later => later.resolve_left (Ne.symm different)
      · simp [different]
      · simp
      · have kept {list : List (κ × ℕ)} (apart : request.1 ∉ list.map Prod.fst) :
            request.1 ∉ (list.filter (·.1 ≠ who)).map Prod.fst :=
          fun inside => apart ((List.filter_sublist.map Prod.fst).subset inside)
        simp only [List.map_append, List.mem_append, not_or]
        exact ⟨kept outside.1, kept outside.2⟩
    · cases applied
  | add more =>
    cases applied
    refine ⟨_, rfl, front, rest, live, rfl, ?_⟩
    simp only [List.map_append, List.mem_append, not_or]
    exact outside

/-- The same for one event after the other. -/
theorem Extra.run {events : List (Event κ)} (extra : Extra request line other)
    (ran : line.run events = some next) (stays : .leave request.1 ∉ events) :
    ∃ same, other.run events = some same ∧ Extra request next same := by
  induction events generalizing line other with
  | nil =>
    cases ran
    exact ⟨other, rfl, extra⟩
  | cons event events ih =>
    obtain ⟨middle, applied, ran⟩ := Option.bind_eq_some_iff.mp ran
    obtain ⟨same, alike, extra⟩ := extra.apply applied fun leaves => stays (by simp [leaves])
    obtain ⟨last, alikeLast, extra⟩ := ih extra ran fun later =>
      stays (List.mem_cons_of_mem _ later)
    exact ⟨last, by rw [run_cons, alike]; exact alikeLast, extra⟩

/-- Without the request that leaves, the lines are the same. -/
theorem Extra.leave (extra : Extra request line other)
    (left : line.apply (.leave request.1) = some next) : next = other := by
  obtain ⟨front, rest, live, rfl, outside⟩ := extra
  simp only [Admission.apply, live] at left
  split at left
  · cases left
    rw [filter_leave outside]
  · cases left

/-- **A request that entered and left may as well never have come.** -/
theorem delete {before between after : List (Event κ)} {who : κ} {size : ℕ}
    (ran : line.run (before ++ .enter who size :: (between ++ .leave who :: after)) = some next)
    (stays : .leave who ∉ between) : line.run (before ++ (between ++ after)) = some next := by
  rw [run_append] at ran ⊢
  obtain ⟨reached, first, ran⟩ := Option.bind_eq_some_iff.mp ran
  rw [first, Option.bind_some]
  rw [run_cons] at ran
  obtain ⟨entered, enters, ran⟩ := Option.bind_eq_some_iff.mp ran
  rw [run_append] at ran ⊢
  obtain ⟨waited, second, ran⟩ := Option.bind_eq_some_iff.mp ran
  obtain ⟨departed, left, ran⟩ := Option.bind_eq_some_iff.mp ran
  have extra : Extra (who, size) entered reached := by
    simp only [Admission.apply] at enters
    split at enters
    · cases enters
    · rename_i fresh
      cases enters
      exact ⟨reached.live, [], rfl, by simp, by simpa using fresh⟩
  obtain ⟨same, alike, extra⟩ := extra.run second stays
  obtain rfl := extra.leave left
  rw [alike]
  exact ran

end Admission

end Concurrency
