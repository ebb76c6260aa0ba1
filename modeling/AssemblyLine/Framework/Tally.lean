import Mathlib.Algebra.BigOperators.Ring.Finset
import Mathlib.Tactic.Ring

/-!
# Tallies

A tally is a counter that whoever holds a resource adds one to on taking it and takes one back
from on giving it up.  It is right when it equals the number of holders, and stays right under
any change of one holder at a time: `card_holders_update` is the arithmetic of that.

The holders are entries of a table `table : ℕ → Option τ` of which only those below some bound
are taken; `p` says of an entry whether it holds the resource.  Where entries hold more than one
of a thing, `total` adds up what they hold.
-/

namespace AssemblyLine

variable {τ : Type*} {table : ℕ → Option τ} {p : τ → Bool} {n i : ℕ}

/-- An entry of a table with one entry changed is the changed one or an old one. -/
lemma entry_of_update {ι : Type*} [DecidableEq ι] {table : ι → Option τ} {i j : ι}
    {changed : Option τ} {x : τ} (h : Function.update table i changed j = some x) :
    (j = i ∧ changed = some x) ∨ (j ≠ i ∧ table j = some x) := by
  by_cases hj : j = i
  · rw [hj, Function.update_self] at h
    exact .inl ⟨hj, h⟩
  · rw [Function.update_of_ne hj] at h
    exact .inr ⟨hj, h⟩

/-- The entries below `n` that hold the resource. -/
def holders (table : ℕ → Option τ) (p : τ → Bool) (n : ℕ) : Finset ℕ :=
  (Finset.range n).filter fun i => (table i).any p

lemma mem_holders : i ∈ holders table p n ↔ i < n ∧ ∃ x, table i = some x ∧ p x = true := by
  rw [holders, Finset.mem_filter, Finset.mem_range, Option.any_eq_true]

/-- An entry not taken yet holds nothing. -/
lemma holders_succ (h : table n = none) : holders table p (n + 1) = holders table p n := by
  ext i
  rw [mem_holders, mem_holders]
  constructor
  · rintro ⟨hlt, x, hx, hp⟩
    have hne : i ≠ n := by
      rintro rfl
      simp [h] at hx
    exact ⟨by omega, x, hx, hp⟩
  · rintro ⟨hlt, hx⟩
    exact ⟨by omega, hx⟩

/-- Changing one entry changes the number of holders by whether it holds, and whether it did. -/
theorem card_holders_update (hlt : i < n) (changed : Option τ) :
    ((holders (Function.update table i changed) p n).card : ℤ) =
      (holders table p n).card + (if changed.any p then 1 else 0) -
        (if (table i).any p then 1 else 0) := by
  have hsplit : ∀ t : ℕ → Option τ, ((holders t p n).card : ℤ) =
      (if (t i).any p then 1 else 0) +
        ∑ j ∈ (Finset.range n).erase i, (if (t j).any p then (1 : ℤ) else 0) := by
    intro t
    rw [holders, Finset.card_filter, Nat.cast_sum,
      ← Finset.add_sum_erase _ _ (Finset.mem_range.mpr hlt)]
    push_cast
    rfl
  have hothers : ∑ j ∈ (Finset.range n).erase i,
      (if (Function.update table i changed j).any p then (1 : ℤ) else 0) =
        ∑ j ∈ (Finset.range n).erase i, (if (table j).any p then (1 : ℤ) else 0) := by
    refine Finset.sum_congr rfl ?_
    intro j hj
    rw [Function.update_of_ne (Finset.ne_of_mem_erase hj)]
  rw [hsplit, hsplit table, hothers, Function.update_self]
  ring

/-! ## Totals -/

section Totals

variable {ι : Type*} [DecidableEq ι] {keys : Finset ι}

/-- What the entries under `keys` weigh together. -/
def total (keys : Finset ι) (weight : τ → ℕ) (table : ι → Option τ) : ℕ :=
  ∑ i ∈ keys, (table i).elim 0 weight

/-- Changing one entry changes the total by what it weighs, and what it weighed. -/
theorem total_update (weight : τ → ℕ) (table : ι → Option τ) {i : ι} (hi : i ∈ keys)
    (changed : Option τ) :
    total keys weight (Function.update table i changed) + (table i).elim 0 weight =
      total keys weight table + changed.elim 0 weight := by
  have hothers : ∑ j ∈ keys.erase i, (Function.update table i changed j).elim 0 weight =
      ∑ j ∈ keys.erase i, (table j).elim 0 weight := by
    apply Finset.sum_congr rfl
    intro j hj
    rw [Function.update_of_ne (Finset.ne_of_mem_erase hj)]
  rw [total, total, ← Finset.add_sum_erase _ _ hi, ← Finset.add_sum_erase _ _ hi, hothers,
    Function.update_self]
  omega

/-- One more entry below a bound. -/
lemma total_range_succ (table : ℕ → Option τ) (n : ℕ) (changed : Option τ) :
    total (Finset.range (n + 1)) weight (Function.update table n changed) =
      total (Finset.range n) weight table + changed.elim 0 weight := by
  rw [total, Finset.sum_range_succ, Function.update_self, total]
  congr 1
  apply Finset.sum_congr rfl
  intro j hj
  rw [Function.update_of_ne (by
    have := Finset.mem_range.mp hj
    omega)]

end Totals

end AssemblyLine
