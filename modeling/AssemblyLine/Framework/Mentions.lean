import Mathlib.Data.List.Induction
import Mathlib.Data.List.Nodup

/-!
# First mentions

What a list mentions, each at its first place.  `firstMentions` finds them as a program does that
looks back from each place; `firstMentions_eq_eraseDups` is that this is the list without its
repetitions.
-/

namespace AssemblyLine

universe u

variable {α : Type u} [BEq α] [LawfulBEq α] {l : List α} {a : α}

/-- The entries that do not stand at an earlier place too. -/
def firstMentions (l : List α) : List α :=
  (l.zipIdx.filter fun entry => !(l.take entry.2).contains entry.1).map Prod.fst

lemma firstMentions_concat :
    firstMentions (l ++ [a]) = firstMentions l ++ if l.contains a then [] else [a] := by
  have hearlier : l.zipIdx.filter (fun entry => !((l ++ [a]).take entry.2).contains entry.1) =
      l.zipIdx.filter fun entry => !(l.take entry.2).contains entry.1 := by
    refine List.filter_congr fun entry hentry => ?_
    have hindex : entry.2 < l.length := by
      have := List.snd_lt_of_mem_zipIdx hentry
      omega
    rw [List.take_append_of_le_length (Nat.le_of_lt hindex)]
  rw [firstMentions, List.zipIdx_append, List.filter_append, List.map_append, hearlier]
  by_cases hmem : l.contains a <;> simp_all [firstMentions]

lemma eraseDups_concat :
    (l ++ [a]).eraseDups = l.eraseDups ++ if l.contains a then [] else [a] := by
  rw [List.eraseDups_append]
  by_cases hmem : l.contains a <;> simp_all [List.removeAll, List.eraseDups_cons]

theorem firstMentions_eq_eraseDups (l : List α) : firstMentions l = l.eraseDups := by
  induction l using List.reverseRecOn with
  | nil => rfl
  | append_singleton l a ih => rw [firstMentions_concat, eraseDups_concat, ih]

/-- Nothing is mentioned first twice. -/
lemma nodup_eraseDups (l : List α) : l.eraseDups.Nodup := by
  induction l using List.reverseRecOn with
  | nil => exact List.nodup_nil
  | append_singleton l a ih =>
      rw [eraseDups_concat]
      by_cases hmem : l.contains a
      · rwa [if_pos hmem, List.append_nil]
      · rw [if_neg hmem]
        rw [List.contains_iff_mem] at hmem
        refine List.nodup_append.mpr ⟨ih, List.nodup_singleton a, ?_⟩
        rintro b hb c hc rfl
        rw [List.mem_singleton.mp hc] at hb
        exact hmem (List.mem_eraseDups.mp hb)

/-- A list without repetitions is as it is. -/
lemma eraseDups_of_nodup (h : l.Nodup) : l.eraseDups = l := by
  induction l using List.reverseRecOn with
  | nil => rfl
  | append_singleton l a ih =>
      obtain ⟨hl, -, hapart⟩ := List.nodup_append.mp h
      have hmem : l.contains a = false := by
        rw [Bool.eq_false_iff, ne_eq, List.contains_iff_mem]
        exact fun hmem => hapart a hmem a (List.mem_singleton_self a) rfl
      rw [eraseDups_concat, ih hl, hmem]
      rfl

end AssemblyLine
