/-
**Accounts over parties.**

What a system of finitely many parties holds altogether is a sum of one natural number for each
party. A step changes the number of the party that moves, and at most a few others; these lemmas say
how the sum moves then. They are all of the form `new total + old share = old total + new share`,
which needs no subtraction.
-/

import Mathlib.Algebra.BigOperators.Group.Finset.Basic
import Mathlib.Algebra.Order.BigOperators.Group.Finset
import Mathlib.Data.Fintype.BigOperators
import Mathlib.Tactic.Common

namespace Concurrency

open scoped BigOperators

set_option linter.unusedSectionVars false

variable {ι : Type*} [Fintype ι] [DecidableEq ι]

/-- **One share changes.** -/
theorem sum_exchange {share share' : ι → ℕ} (party : ι)
    (others : ∀ other, other ≠ party → share' other = share other) :
    ∑ i, share' i + share party = ∑ i, share i + share' party := by
  have after := Finset.add_sum_erase Finset.univ share' (Finset.mem_univ party)
  have before := Finset.add_sum_erase Finset.univ share (Finset.mem_univ party)
  have rest : ∑ i ∈ Finset.univ.erase party, share' i = ∑ i ∈ Finset.univ.erase party, share i :=
    Finset.sum_congr rfl fun other member => others other (Finset.ne_of_mem_erase member)
  omega

/-- **Two shares change.** -/
theorem sum_exchange_two {share share' : ι → ℕ} {first second : ι} (different : first ≠ second)
    (others : ∀ other, other ≠ first → other ≠ second → share' other = share other) :
    ∑ i, share' i + (share first + share second) = ∑ i,
      share i + (share' first + share' second) := by
  let middle := Function.update share first (share' first)
  have half : ∑ i, middle i + share first = ∑ i, share i + middle first :=
    sum_exchange first fun other ne => Function.update_of_ne ne _ _
  have rest : ∑ i, share' i + middle second = ∑ i, middle i + share' second :=
    sum_exchange second fun other ne => by
      by_cases same : other = first
      · subst same
        show share' other = Function.update share other (share' other) other
        rw [Function.update_self]
      · exact (others other same ne).trans (Function.update_of_ne same _ _).symm
  have atFirst : middle first = share' first := Function.update_self _ _ _
  have atSecond : middle second = share second := Function.update_of_ne different.symm _ _
  omega

/-- No share exceeds the total. -/
theorem share_le_sum (share : ι → ℕ) (party : ι) : share party ≤ ∑ i, share i :=
  Finset.single_le_sum (fun _ _ => Nat.zero_le _) (Finset.mem_univ party)

/-- Two parties' shares together do not exceed the total. -/
theorem two_shares_le_sum (share : ι → ℕ) {first second : ι} (different : first ≠ second) :
    share first + share second ≤ ∑ i, share i := by
  have split := Finset.add_sum_erase Finset.univ share (Finset.mem_univ first)
  have inside : second ∈ Finset.univ.erase first :=
    Finset.mem_erase.mpr ⟨different.symm, Finset.mem_univ _⟩
  have part := Finset.single_le_sum (f := share) (fun _ _ => Nat.zero_le _) inside
  omega

/-- A total of zero leaves every share zero. -/
theorem share_eq_zero_of_sum {share : ι → ℕ} (total : ∑ i, share i = 0) (party : ι) :
    share party = 0 :=
  Nat.eq_zero_of_le_zero (total ▸ share_le_sum share party)

end Concurrency
