import AssemblyLine.Framework.Lines

/-!
# Slices of text by byte

Rust finds a character in a text by the byte it begins at, and cuts the text there.  An index past
the end of the text, or inside one of its characters, is a panic: `sliceFrom` and `sliceTo` have
nothing to return.  `splitAtByte_eq_some_iff` says which indices there is something at.
-/

namespace AssemblyLine

/-- How many bytes some characters take. -/
def byteLen : List Char → ℕ
  | [] => 0
  | c :: text => c.utf8Size + byteLen text

/-- `str::find` of a character: the byte it first begins at. -/
def findByte (c : Char) (text : List Char) : Option ℕ :=
  (text.idxOf? c).map fun i => byteLen (text.take i)

/-- What is before and after a byte index, when it is between two characters. -/
def splitAtByte (i : ℕ) : List Char → Option (List Char × List Char)
  | [] => if i = 0 then some ([], []) else none
  | c :: text =>
    if i = 0 then some ([], c :: text)
    else if c.utf8Size ≤ i then
      (splitAtByte (i - c.utf8Size) text).map fun parts => (c :: parts.1, parts.2)
    else none

/-- `&text[i..]`. -/
def sliceFrom (i : ℕ) (text : List Char) : Option (List Char) := (splitAtByte i text).map Prod.snd

/-- `&text[..i]`. -/
def sliceTo (i : ℕ) (text : List Char) : Option (List Char) := (splitAtByte i text).map Prod.fst

section Slices

variable {c : Char} {i : ℕ} {text front back : List Char}

@[simp] lemma byteLen_nil : byteLen [] = 0 := rfl

@[simp] lemma byteLen_cons (c : Char) (text : List Char) :
    byteLen (c :: text) = c.utf8Size + byteLen text := rfl

@[simp] lemma byteLen_append (front back : List Char) :
    byteLen (front ++ back) = byteLen front + byteLen back := by
  induction front with
  | nil => simp
  | cons c front ih => rw [List.cons_append, byteLen_cons, byteLen_cons, ih, Nat.add_assoc]

lemma byteLen_pos (h : text ≠ []) : 0 < byteLen text := by
  obtain ⟨c, rest, rfl⟩ := List.exists_cons_of_ne_nil h
  have hc := c.utf8Size_pos
  rw [byteLen_cons]
  omega

/-- An index is between two characters when it is what the characters before it take. -/
lemma splitAtByte_eq_some_iff :
    splitAtByte i text = some (front, back) ↔ text = front ++ back ∧ byteLen front = i := by
  induction text generalizing i front with
  | nil =>
      rw [splitAtByte, Option.ite_none_right_eq_some, List.nil_eq_append_iff]
      constructor
      · rintro ⟨rfl, hparts⟩
        obtain ⟨rfl, rfl⟩ := Prod.mk.inj (Option.some.inj hparts)
        exact ⟨⟨rfl, rfl⟩, rfl⟩
      · rintro ⟨⟨rfl, rfl⟩, rfl⟩
        exact ⟨rfl, rfl⟩
  | cons c text ih =>
      have hc := c.utf8Size_pos
      rw [splitAtByte]
      by_cases hzero : i = 0
      · subst hzero
        rw [if_pos rfl]
        constructor
        · intro hparts
          obtain ⟨rfl, rfl⟩ := Prod.mk.inj (Option.some.inj hparts)
          exact ⟨rfl, rfl⟩
        · rintro ⟨hsplit, hlen⟩
          obtain rfl : front = [] := by
            by_contra hne
            have hpos := byteLen_pos hne
            omega
          rw [hsplit, List.nil_append]
      · rw [if_neg hzero, Option.ite_none_right_eq_some]
        constructor
        · rintro ⟨hle, hparts⟩
          obtain ⟨⟨before, after⟩, hsplit, heq⟩ := Option.map_eq_some_iff.mp hparts
          obtain ⟨rfl, rfl⟩ := Prod.mk.inj heq
          obtain ⟨rfl, hlen⟩ := ih.mp hsplit
          refine ⟨rfl, ?_⟩
          rw [byteLen_cons]
          dsimp only
          omega
        · rintro ⟨hsplit, hlen⟩
          cases front with
          | nil => exact absurd hlen.symm hzero
          | cons d before =>
              obtain ⟨rfl, rfl⟩ := List.cons.inj hsplit
              rw [byteLen_cons] at hlen
              refine ⟨by omega, ?_⟩
              rw [ih.mpr ⟨rfl, by omega⟩, Option.map_some]

lemma sliceFrom_append : sliceFrom (byteLen front) (front ++ back) = some back := by
  rw [sliceFrom, splitAtByte_eq_some_iff.mpr ⟨rfl, rfl⟩, Option.map_some]

lemma sliceTo_append : sliceTo (byteLen front) (front ++ back) = some front := by
  rw [sliceTo, splitAtByte_eq_some_iff.mpr ⟨rfl, rfl⟩, Option.map_some]

@[simp] lemma sliceFrom_byteLen_take (i : ℕ) (text : List Char) :
    sliceFrom (byteLen (text.take i)) text = some (text.drop i) := by
  have hslice : sliceFrom (byteLen (text.take i)) (text.take i ++ text.drop i) =
      some (text.drop i) := sliceFrom_append
  rwa [List.take_append_drop] at hslice

@[simp] lemma sliceTo_byteLen_take (i : ℕ) (text : List Char) :
    sliceTo (byteLen (text.take i)) text = some (text.take i) := by
  have hslice : sliceTo (byteLen (text.take i)) (text.take i ++ text.drop i) =
      some (text.take i) := sliceTo_append
  rwa [List.take_append_drop] at hslice

lemma byteLen_take_add (i j : ℕ) (text : List Char) :
    byteLen (text.take i) + byteLen ((text.drop i).take j) = byteLen (text.take (i + j)) := by
  rw [List.take_add, byteLen_append]

/-- Of two places in a text, the one after more characters is at the later byte. -/
lemma byteLen_lt_iff {other : List Char} (hfront : front <+: text) (hother : other <+: text) :
    byteLen front < byteLen other ↔ front.length < other.length := by
  rcases List.prefix_or_prefix_of_prefix hfront hother with ⟨more, rfl⟩ | ⟨more, rfl⟩
  · rw [byteLen_append, List.length_append]
    by_cases hmore : more = []
    · simp [hmore]
    · have hbytes := byteLen_pos hmore
      have hlength := List.length_pos_iff.mpr hmore
      omega
  · rw [byteLen_append, List.length_append]
    omega

end Slices

end AssemblyLine
