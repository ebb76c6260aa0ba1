import Mathlib.Data.List.Induction
import Mathlib.Order.Bounds.Defs
import Mathlib.Order.Lattice
import Mathlib.Order.MinMax

/-!
# The last entry of a kind

What a fold over a history keeps is often decided by the last entry of some kind and by what
follows it.  `LastIn` names the two, and `LastIn.foldl` is the rule: what such an entry
establishes and the others keep holds of the fold.
-/

namespace AssemblyLine

universe u v

variable {α : Type u} {β : Type v} {p : α → Prop} {l after : List α} {x y : α}

/-- `x` is the last entry of `l` that has `p`, and `after` is what follows it. -/
def LastIn (p : α → Prop) (l : List α) (x : α) (after : List α) : Prop :=
  (∃ before, l = before ++ x :: after) ∧ p x ∧ ∀ y ∈ after, ¬ p y

@[simp] lemma not_lastIn_nil : ¬ LastIn p [] x after := by
  rintro ⟨⟨before, hnil⟩, -⟩
  simp at hnil

/-- An entry of a list with one more is that one, or comes before it. -/
lemma snoc_eq_append_cons {before : List α} (h : l ++ [y] = before ++ x :: after) :
    (before = l ∧ x = y ∧ after = []) ∨
      ∃ older, after = older ++ [y] ∧ l = before ++ x :: older := by
  rcases List.eq_nil_or_concat after with rfl | ⟨older, z, rfl⟩
  · obtain ⟨rfl, hxy⟩ := List.append_inj' h rfl
    exact Or.inl ⟨rfl, (List.singleton_inj.mp hxy).symm, rfl⟩
  · have hsplit : l ++ [y] = (before ++ x :: older) ++ [z] := by simpa using h
    obtain ⟨rfl, hyz⟩ := List.append_inj' hsplit rfl
    rw [List.singleton_inj.mp hyz]
    exact Or.inr ⟨older, List.concat_eq_append, rfl⟩

/-- One more entry is the last of its kind, or comes after the last one. -/
lemma lastIn_snoc : LastIn p (l ++ [y]) x after ↔
    (p y ∧ x = y ∧ after = []) ∨ (¬ p y ∧ ∃ older, after = older ++ [y] ∧ LastIn p l x older) := by
  constructor
  · rintro ⟨⟨before, hl⟩, hx, hafter⟩
    rcases snoc_eq_append_cons hl with ⟨rfl, rfl, rfl⟩ | ⟨older, rfl, rfl⟩
    · exact Or.inl ⟨hx, rfl, rfl⟩
    · refine Or.inr ⟨hafter y (by simp), older, rfl, ⟨before, rfl⟩, hx, fun z hz => ?_⟩
      exact hafter z (by simp [hz])
  · rintro (⟨hy, rfl, rfl⟩ | ⟨hy, older, rfl, ⟨before, rfl⟩, hx, holder⟩)
    · exact ⟨⟨l, rfl⟩, hy, by simp⟩
    · refine ⟨⟨before, by simp⟩, hx, fun z hz => ?_⟩
      rcases List.mem_append.mp hz with hz | hz
      · exact holder z hz
      · rwa [List.mem_singleton.mp hz]

/-- A list has a last entry of a kind, or none of it. -/
lemma lastIn_or_none (p : α → Prop) (l : List α) :
    (∃ x after, LastIn p l x after) ∨ ∀ y ∈ l, ¬ p y := by
  induction l using List.reverseRecOn with
  | nil => exact Or.inr (by simp)
  | append_singleton l y ih =>
      by_cases hy : p y
      · exact Or.inl ⟨y, [], lastIn_snoc.mpr (Or.inl ⟨hy, rfl, rfl⟩)⟩
      · rcases ih with ⟨x, older, hlast⟩ | hnone
        · exact Or.inl ⟨x, older ++ [y], lastIn_snoc.mpr (Or.inr ⟨hy, older, rfl, hlast⟩)⟩
        · refine Or.inr fun z hz => ?_
          rcases List.mem_append.mp hz with hz | hz
          · exact hnone z hz
          · rwa [List.mem_singleton.mp hz]

lemma LastIn.mem (h : LastIn p l x after) : x ∈ l := by
  obtain ⟨⟨before, rfl⟩, -⟩ := h
  simp

/-- There is one last entry. -/
lemma LastIn.unique {after' : List α} (h : LastIn p l x after) (h' : LastIn p l y after') :
    x = y ∧ after = after' := by
  induction l using List.reverseRecOn generalizing after after' with
  | nil => simp at h
  | append_singleton l z ih =>
      rcases lastIn_snoc.mp h with ⟨hz, rfl, rfl⟩ | ⟨hz, older, rfl, hlast⟩ <;>
        rcases lastIn_snoc.mp h' with ⟨hz', rfl, rfl⟩ | ⟨hz', older', rfl, hlast'⟩
      · exact ⟨rfl, rfl⟩
      · exact absurd hz hz'
      · exact absurd hz' hz
      · obtain ⟨rfl, rfl⟩ := ih hlast hlast'
        exact ⟨rfl, rfl⟩

/-- What the last entry of a kind establishes, and entries of other kinds keep, holds of a fold. -/
theorem LastIn.foldl {step : β → α → β} {Q : List α → β → Prop}
    (h : LastIn p l x after) (hset : ∀ s, Q [] (step s x))
    (hkeep : ∀ s older y, ¬ p y → Q older s → Q (older ++ [y]) (step s y)) (s : β) :
    Q after (l.foldl step s) := by
  obtain ⟨⟨before, rfl⟩, -, hafter⟩ := h
  rw [List.foldl_append, List.foldl_cons]
  induction after using List.reverseRecOn with
  | nil => exact hset _
  | append_singleton older y ih =>
      rw [List.foldl_append, List.foldl_cons, List.foldl_nil]
      exact hkeep _ older y (hafter y (by simp)) (ih fun z hz => hafter z (by simp [hz]))

/-! ## The highest entry -/

lemma le_foldl_max {l : List ℕ} {m n : ℕ} (h : n ∈ l ∨ n ≤ m) : n ≤ l.foldl max m := by
  induction l generalizing m with
  | nil => simpa using h
  | cons k l ih =>
      refine ih ?_
      rcases h with h | h
      · rcases List.mem_cons.mp h with rfl | h
        · exact Or.inr (le_max_right _ _)
        · exact Or.inl h
      · exact Or.inr (le_trans h (le_max_left _ _))

lemma foldl_max_mem (l : List ℕ) (m : ℕ) : l.foldl max m = m ∨ l.foldl max m ∈ l := by
  induction l generalizing m with
  | nil => exact Or.inl rfl
  | cons k l ih =>
      rcases ih (max m k) with h | h
      · rcases max_choice m k with hm | hk
        · exact Or.inl (h.trans hm)
        · exact Or.inr (by rw [List.foldl_cons, h, hk]; exact List.mem_cons_self)
      · exact Or.inr (List.mem_cons_of_mem _ h)

/-- Folding with `max` from 0 gives the highest entry of a list that has one. -/
lemma isGreatest_foldl_max {l : List ℕ} (h : l ≠ []) : IsGreatest {n | n ∈ l} (l.foldl max 0) := by
  refine ⟨?_, fun n hn => le_foldl_max (Or.inl hn)⟩
  rcases foldl_max_mem l 0 with hzero | hmem
  · obtain ⟨n, hn⟩ := List.exists_mem_of_ne_nil l h
    have hle : n ≤ 0 := hzero ▸ le_foldl_max (Or.inl hn)
    obtain rfl : n = 0 := Nat.le_zero.mp hle
    rwa [Set.mem_ofPred_eq, hzero]
  · exact hmem

end AssemblyLine
