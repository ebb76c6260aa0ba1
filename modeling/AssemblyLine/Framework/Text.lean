import AssemblyLine.Framework.Lines
import Mathlib.Algebra.Group.Nat.Defs
import Mathlib.Data.List.TakeWhile

/-!
# Text, as a program takes it apart

The operations of Rust's `str` that a program reads other programs' output with: lines, fields,
prefixes and suffixes, the first and the last separator, and decimal numbers.  Each is a function
of the text's characters, so what it does to text put together from known parts is a fact about
lists: `fields_append` for separators, `stripPrefix_append` for prefixes, `parseU64_toString` for
numbers.
-/

namespace AssemblyLine

/-! ## Prefixes and suffixes -/

/-- `str::strip_prefix`. -/
def stripPrefix (front text : String) : Option String :=
  (front.toList.isPrefixOf? text.toList).map String.ofList

/-- `str::strip_suffix`. -/
def stripSuffix (back text : String) : Option String :=
  (back.toList.reverse.isPrefixOf? text.toList.reverse).map fun rest => String.ofList rest.reverse

section Stripping

variable {front back text rest : String}

lemma isPrefixOf?_eq_some_iff {α : Type*} [BEq α] [LawfulBEq α] {p l r : List α} :
    p.isPrefixOf? l = some r ↔ l = p ++ r := by
  induction p generalizing l with
  | nil => simp [List.isPrefixOf?, eq_comm]
  | cons x p ih =>
      cases l with
      | nil => simp [List.isPrefixOf?]
      | cons y l =>
          by_cases hxy : x = y
          · subst hxy
            simp [List.isPrefixOf?, ih]
          · simp [List.isPrefixOf?, hxy, Ne.symm hxy]

lemma stripPrefix_eq_some_iff : stripPrefix front text = some rest ↔ text = front ++ rest := by
  simp only [stripPrefix, Option.map_eq_some_iff, isPrefixOf?_eq_some_iff]
  constructor
  · rintro ⟨r, hr, rfl⟩
    rw [← String.toList_inj, hr, String.toList_append, String.toList_ofList]
  · rintro rfl
    exact ⟨rest.toList, by rw [String.toList_append], String.ofList_toList⟩

@[simp] lemma stripPrefix_append : stripPrefix front (front ++ rest) = some rest :=
  stripPrefix_eq_some_iff.mpr rfl

lemma stripSuffix_eq_some_iff : stripSuffix back text = some rest ↔ text = rest ++ back := by
  simp only [stripSuffix, Option.map_eq_some_iff, isPrefixOf?_eq_some_iff]
  constructor
  · rintro ⟨r, hr, rfl⟩
    have hlist := congrArg List.reverse hr
    rw [List.reverse_reverse, List.reverse_append, List.reverse_reverse] at hlist
    rw [← String.toList_inj, hlist, String.toList_append, String.toList_ofList]
  · rintro rfl
    refine ⟨rest.toList.reverse, ?_, by rw [List.reverse_reverse, String.ofList_toList]⟩
    rw [String.toList_append, List.reverse_append]

@[simp] lemma stripSuffix_append : stripSuffix back (rest ++ back) = some rest :=
  stripSuffix_eq_some_iff.mpr rfl

/-- `str::ends_with`. -/
def endsWith (back text : String) : Bool := (stripSuffix back text).isSome

/-- `str::starts_with`. -/
def startsWith (front text : String) : Bool := (stripPrefix front text).isSome

@[simp] lemma endsWith_append : endsWith back (rest ++ back) = true := by
  simp [endsWith]

lemma endsWith_iff : endsWith back text = true ↔ ∃ rest, text = rest ++ back := by
  rw [endsWith, Option.isSome_iff_exists]
  exact exists_congr fun _ => stripSuffix_eq_some_iff

lemma startsWith_iff : startsWith front text = true ↔ ∃ rest, text = front ++ rest := by
  rw [startsWith, Option.isSome_iff_exists]
  exact exists_congr fun _ => stripPrefix_eq_some_iff

lemma stripPrefix_eq_none_iff : stripPrefix front text = none ↔ ∀ rest, text ≠ front ++ rest := by
  rw [Option.eq_none_iff_forall_ne_some]
  exact forall_congr' fun _ => not_congr stripPrefix_eq_some_iff

lemma stripSuffix_eq_none_iff : stripSuffix back text = none ↔ ∀ rest, text ≠ rest ++ back := by
  rw [Option.eq_none_iff_forall_ne_some]
  exact forall_congr' fun _ => not_congr stripSuffix_eq_some_iff

lemma endsWith_eq_false_iff : endsWith back text = false ↔ ∀ rest, text ≠ rest ++ back := by
  rw [endsWith, Option.isSome_eq_false_iff, Option.isNone_iff_eq_none, stripSuffix_eq_none_iff]

end Stripping

/-! ## Separators -/

/-- `str::split` at a character. -/
def fields (sep : Char) (text : String) : List String :=
  (text.toList.splitOn sep).map String.ofList

/-- A first field that holds no separator is split off. -/
lemma fields_append {sep : Char} {first : String} (hfirst : sep ∉ first.toList) (rest : String) :
    fields sep (first ++ (String.singleton sep ++ rest)) = first :: fields sep rest := by
  have hlist : (first ++ (String.singleton sep ++ rest)).toList =
      first.toList ++ sep :: rest.toList := by simp
  rw [fields, hlist, List.splitOn_append_cons_self_of_not_mem hfirst, List.map_cons,
    String.ofList_toList]
  rfl

lemma fields_of_notMem {sep : Char} {text : String} (h : sep ∉ text.toList) :
    fields sep text = [text] := by
  rw [fields, List.splitOn_eq_singleton h, List.map_singleton, String.ofList_toList]

/-- The fields on both sides of a separator are the fields of the text. -/
lemma fields_append_singleton {sep : Char} (front back : String) :
    fields sep (front ++ String.singleton sep ++ back) = fields sep front ++ fields sep back := by
  have hlist : (front ++ String.singleton sep ++ back).toList =
      front.toList ++ sep :: back.toList := by simp
  rw [fields, hlist, List.splitOn_append_cons_self, List.map_append]
  rfl

/-- Texts that are joined by a separator are the fields between them. -/
lemma fields_intercalate {sep : Char} {texts : List String} (hne : texts ≠ [])
    (htexts : ∀ text ∈ texts, sep ∉ text.toList) :
    fields sep ((String.singleton sep).intercalate texts) = texts := by
  have hfree : ∀ l ∈ texts.map String.toList, sep ∉ l := by
    intro l hl
    obtain ⟨text, htext, rfl⟩ := List.mem_map.mp hl
    exact htexts text htext
  have hsplit := List.splitOn_intercalate sep hfree (by simpa using hne)
  rw [fields, String.toList_intercalate, String.toList_singleton, hsplit, List.map_map]
  simp

/-- The text before and after the first occurrence of a pattern. -/
def splitFirst (pat : List Char) : List Char → Option (List Char × List Char)
  | [] => if pat = [] then some ([], []) else none
  | c :: cs =>
    match pat.isPrefixOf? (c :: cs) with
    | some rest => some ([], rest)
    | none => (splitFirst pat cs).map fun parts => (c :: parts.1, parts.2)

lemma splitFirst_nil (pat : List Char) :
    splitFirst pat [] = if pat = [] then some ([], []) else none := rfl

lemma splitFirst_cons_some {pat cs rest : List Char} {c : Char}
    (h : pat.isPrefixOf? (c :: cs) = some rest) : splitFirst pat (c :: cs) = some ([], rest) := by
  rw [splitFirst, h]

lemma splitFirst_cons_none {pat cs : List Char} {c : Char}
    (h : pat.isPrefixOf? (c :: cs) = none) :
    splitFirst pat (c :: cs) = (splitFirst pat cs).map fun parts => (c :: parts.1, parts.2) := by
  rw [splitFirst, h]

/-- `str::split_once`. -/
def splitOnce (pat text : String) : Option (String × String) :=
  (splitFirst pat.toList text.toList).map fun parts =>
    (String.ofList parts.1, String.ofList parts.2)

/-- The first separator is the one after a part that holds none. -/
lemma splitOnce_append {sep : Char} {front : String} (hfront : sep ∉ front.toList) (back : String) :
    splitOnce (String.singleton sep) (front ++ (String.singleton sep ++ back)) =
      some (front, back) := by
  have hfirst : ∀ (l r : List Char), sep ∉ l → splitFirst [sep] (l ++ sep :: r) = some (l, r) := by
    intro l r hl
    induction l with
    | nil => exact splitFirst_cons_some (isPrefixOf?_eq_some_iff.mpr rfl)
    | cons c l ih =>
        rw [List.mem_cons, not_or] at hl
        have hne : [sep].isPrefixOf? (c :: (l ++ sep :: r)) = none := by
          simp [List.isPrefixOf?, hl.1]
        rw [List.cons_append, splitFirst_cons_none hne, ih hl.2]
        rfl
  have hlist : (front ++ (String.singleton sep ++ back)).toList =
      front.toList ++ sep :: back.toList := by simp
  rw [splitOnce, hlist, String.toList_singleton, hfirst _ _ hfront, Option.map_some,
    String.ofList_toList, String.ofList_toList]

/-- A pattern is not found in what lacks its first character. -/
lemma splitFirst_of_notMem {c : Char} {text : List Char} (h : c ∉ text) (pat : List Char) :
    splitFirst (c :: pat) text = none := by
  induction text with
  | nil => rfl
  | cons d text ih =>
      rw [List.mem_cons, not_or] at h
      have hne : (c :: pat).isPrefixOf? (d :: text) = none := by simp [List.isPrefixOf?, h.1]
      rw [splitFirst_cons_none hne, ih h.2]
      rfl

lemma splitOnce_of_notMem {sep : Char} {text : String} (h : sep ∉ text.toList) :
    splitOnce (String.singleton sep) text = none := by
  rw [splitOnce, String.toList_singleton, splitFirst_of_notMem h]
  rfl

/-- What is before and after a pattern makes up the text with it. -/
lemma splitFirst_spec {pat text front back : List Char}
    (h : splitFirst pat text = some (front, back)) :
    text = front ++ pat ++ back := by
  induction text generalizing front with
  | nil =>
      rw [splitFirst_nil, Option.ite_none_right_eq_some] at h
      obtain ⟨rfl, hparts⟩ := h
      obtain ⟨rfl, rfl⟩ := Prod.mk.inj (Option.some.inj hparts)
      rfl
  | cons c text ih =>
      cases hrest : pat.isPrefixOf? (c :: text) with
      | some rest =>
          rw [splitFirst_cons_some hrest] at h
          obtain ⟨rfl, rfl⟩ := Prod.mk.inj (Option.some.inj h)
          exact isPrefixOf?_eq_some_iff.mp hrest
      | none =>
          rw [splitFirst_cons_none hrest] at h
          obtain ⟨⟨before, after⟩, hparts, heq⟩ := Option.map_eq_some_iff.mp h
          obtain ⟨rfl, rfl⟩ := Prod.mk.inj heq
          rw [ih hparts]
          rfl

/-- What is before the first occurrence of a pattern has none. -/
lemma splitFirst_front {pat text front back : List Char} (hpat : pat ≠ [])
    (h : splitFirst pat text = some (front, back)) : splitFirst pat front = none := by
  induction text generalizing front with
  | nil =>
      rw [splitFirst_nil, Option.ite_none_right_eq_some] at h
      exact absurd h.1 hpat
  | cons c text ih =>
      have htext := splitFirst_spec h
      cases hfound : pat.isPrefixOf? (c :: text) with
      | some rest =>
          rw [splitFirst_cons_some hfound] at h
          obtain ⟨rfl, rfl⟩ := Prod.mk.inj (Option.some.inj h)
          exact if_neg hpat
      | none =>
          rw [splitFirst_cons_none hfound] at h
          obtain ⟨⟨before, after⟩, hparts, heq⟩ := Option.map_eq_some_iff.mp h
          obtain ⟨rfl, rfl⟩ := Prod.mk.inj heq
          have hnot : pat.isPrefixOf? (c :: before) = none := by
            rw [Option.eq_none_iff_forall_not_mem]
            intro rest hrest
            have hprefix := isPrefixOf?_eq_some_iff.mp (Option.mem_def.mp hrest)
            rw [htext, hprefix, List.append_assoc, List.append_assoc,
              isPrefixOf?_eq_some_iff.mpr rfl] at hfound
            cases hfound
          rw [splitFirst_cons_none hnot, ih hparts, Option.map_none]

/-- A pattern that does not begin inside itself is first found after a part that has none. -/
lemma splitFirst_append {c : Char} {pat front : List Char} (hc : c ∉ pat)
    (h : splitFirst (c :: pat) front = none) (back : List Char) :
    splitFirst (c :: pat) (front ++ (c :: pat ++ back)) = some (front, back) := by
  induction front with
  | nil =>
      rw [List.nil_append, List.cons_append]
      exact splitFirst_cons_some (isPrefixOf?_eq_some_iff.mpr (List.cons_append ..).symm)
  | cons d front ih =>
      have hnone : (c :: pat).isPrefixOf? (d :: front) = none := by
        cases hfound : (c :: pat).isPrefixOf? (d :: front) with
        | none => rfl
        | some rest =>
            rw [splitFirst_cons_some hfound] at h
            cases h
      rw [splitFirst_cons_none hnone, Option.map_eq_none_iff] at h
      have hnot : (c :: pat).isPrefixOf? (d :: (front ++ (c :: pat ++ back))) = none := by
        rw [Option.eq_none_iff_forall_not_mem]
        intro rest hrest
        have hprefix := isPrefixOf?_eq_some_iff.mp (Option.mem_def.mp hrest)
        obtain ⟨rfl, htail⟩ := List.cons.inj hprefix
        rcases List.append_eq_append_iff.mp htail with ⟨more, hpat, hmore⟩ | ⟨more, hfront, -⟩
        · cases more with
          | nil =>
              rw [List.append_nil] at hpat
              rw [hpat, isPrefixOf?_eq_some_iff.mpr (List.append_nil _).symm] at hnone
              cases hnone
          | cons e more =>
              obtain ⟨rfl, -⟩ := List.cons.inj hmore
              exact absurd (hpat ▸ List.mem_append_right _ List.mem_cons_self) hc
        · rw [hfront, isPrefixOf?_eq_some_iff.mpr (List.cons_append ..).symm] at hnone
          cases hnone
      rw [List.cons_append, splitFirst_cons_none hnot, ih h, Option.map_some]

lemma splitOnce_spec {pat text front back : String} (h : splitOnce pat text = some (front, back)) :
    text = front ++ pat ++ back := by
  obtain ⟨⟨before, after⟩, hparts, heq⟩ := Option.map_eq_some_iff.mp h
  obtain ⟨rfl, rfl⟩ := Prod.mk.inj heq
  rw [← String.toList_inj, splitFirst_spec hparts]
  simp

/-- What is before the first occurrence of a pattern has none. -/
lemma splitOnce_front {pat text front back : String} (hpat : pat ≠ "")
    (h : splitOnce pat text = some (front, back)) : splitOnce pat front = none := by
  obtain ⟨⟨before, after⟩, hparts, heq⟩ := Option.map_eq_some_iff.mp h
  obtain ⟨rfl, rfl⟩ := Prod.mk.inj heq
  have hpat' : pat.toList ≠ [] := fun hnil => hpat (String.toList_eq_nil_iff.mp hnil)
  rw [splitOnce, String.toList_ofList, splitFirst_front hpat' hparts, Option.map_none]

/-- A separator that is there has a first place. -/
lemma exists_append_of_mem {sep : Char} {text : String} (h : sep ∈ text.toList) :
    ∃ front back, sep ∉ front.toList ∧ text = front ++ (String.singleton sep ++ back) := by
  obtain ⟨before, after, htext, hbefore⟩ := List.eq_append_cons_of_mem h
  refine ⟨String.ofList before, String.ofList after, by rwa [String.toList_ofList], ?_⟩
  rw [← String.toList_inj, htext]
  simp

lemma splitOnce_singleton_eq_none_iff {sep : Char} {text : String} :
    splitOnce (String.singleton sep) text = none ↔ sep ∉ text.toList := by
  refine ⟨fun h hmem => ?_, splitOnce_of_notMem⟩
  obtain ⟨front, back, hfront, rfl⟩ := exists_append_of_mem hmem
  rw [splitOnce_append hfront] at h
  cases h

/-- The first separator is the one after a part that holds none. -/
lemma splitOnce_singleton_eq_some_iff {sep : Char} {text front back : String} :
    splitOnce (String.singleton sep) text = some (front, back) ↔
      sep ∉ front.toList ∧ text = front ++ (String.singleton sep ++ back) := by
  constructor
  · intro h
    have hmem : sep ∈ text.toList := by
      by_contra hnot
      rw [splitOnce_of_notMem hnot] at h
      cases h
    obtain ⟨before, after, hbefore, rfl⟩ := exists_append_of_mem hmem
    rw [splitOnce_append hbefore] at h
    obtain ⟨rfl, rfl⟩ := Prod.mk.inj (Option.some.inj h)
    exact ⟨hbefore, rfl⟩
  · rintro ⟨hfront, rfl⟩
    exact splitOnce_append hfront back

/-- What follows a text that ends in a separator, or nothing, is the last field. -/
lemma getLast?_fields_append {sep : Char} {front last : String} (hlast : sep ∉ last.toList)
    (hfront : front = "" ∨ endsWith (String.singleton sep) front = true) :
    (fields sep (front ++ last)).getLast? = some last := by
  rcases hfront with rfl | hends
  · rw [String.empty_append, fields_of_notMem hlast, List.getLast?_singleton]
  · obtain ⟨before, rfl⟩ := endsWith_iff.mp hends
    rw [fields_append_singleton, fields_of_notMem hlast, List.getLast?_concat]

/-- Every text has a last field. -/
lemma exists_last_field (sep : Char) (text : String) : ∃ front last, text = front ++ last ∧
    sep ∉ last.toList ∧ (front = "" ∨ endsWith (String.singleton sep) front = true) := by
  by_cases hmem : sep ∈ text.toList
  · obtain ⟨after, before, hreverse, hafter⟩ :=
      List.eq_append_cons_of_mem (List.mem_reverse.mpr hmem)
    refine ⟨String.ofList before.reverse ++ String.singleton sep, String.ofList after.reverse,
      ?_, by simpa using hafter, .inr endsWith_append⟩
    rw [← String.toList_inj, ← List.reverse_inj, hreverse]
    simp
  · exact ⟨"", text, String.empty_append.symm, hmem, .inl rfl⟩

/-- `str::rsplit_once` at a character. -/
def rsplitOnce (sep : Char) (text : String) : Option (String × String) :=
  if sep ∈ text.toList then
    some (String.ofList (text.toList.reverse.dropWhile (· ≠ sep)).tail.reverse,
      String.ofList (text.toList.reverse.takeWhile (· ≠ sep)).reverse)
  else none

/-- The last separator is the one before a part that holds none. -/
lemma rsplitOnce_append {sep : Char} {front back : String} (hback : sep ∉ back.toList) :
    rsplitOnce sep (front ++ (String.singleton sep ++ back)) = some (front, back) := by
  have hlist : (front ++ (String.singleton sep ++ back)).toList.reverse =
      back.toList.reverse ++ sep :: front.toList.reverse := by simp
  have hmem : sep ∈ (front ++ (String.singleton sep ++ back)).toList := by simp
  have hkept : ∀ c ∈ back.toList.reverse, (decide (c ≠ sep)) = true := by
    intro c hc
    rw [decide_eq_true_eq]
    rintro rfl
    exact hback (List.mem_reverse.mp hc)
  rw [rsplitOnce, if_pos hmem, hlist, List.dropWhile_append_of_pos hkept,
    List.takeWhile_append_of_pos hkept]
  simp

/-- `str::trim_start_matches` at a character. -/
def trimStartChar (c : Char) (text : String) :
    String := String.ofList (text.toList.dropWhile (· = c))

/-- `str::trim_end_matches` at a character. -/
def trimEndChar (c : Char) (text : String) : String :=
  String.ofList (text.toList.reverse.dropWhile (· = c)).reverse

/-- What is left of a text once `back` has been taken off its end as often as it stands there, at
most `n` times. -/
def trimEndTimes (back : String) : ℕ → String → String
  | 0, text => text
  | n + 1, text =>
    match stripSuffix back text with
    | some rest => trimEndTimes back n rest
    | none => text

lemma trimEndTimes_succ (back : String) (n : ℕ) (text : String) :
    trimEndTimes back (n + 1) text =
      match stripSuffix back text with
      | some rest => trimEndTimes back n rest
      | none => text := rfl

/-- `str::trim_end_matches` at a text that is not empty. -/
def trimEndText (back text : String) : String := trimEndTimes back text.length text

/-- A character that separates nothing is in a field. -/
lemma exists_field_of_mem {sep c : Char} {text : String} (hne : c ≠ sep) (h : c ∈ text.toList) :
    ∃ field ∈ fields sep text, c ∈ field.toList := by
  have hpieces : ∀ pieces : List (List Char), c ∈ [sep].intercalate pieces →
      ∃ piece ∈ pieces, c ∈ piece := by
    intro pieces hmem
    induction pieces with
    | nil => cases hmem
    | cons piece pieces ih =>
        cases pieces with
        | nil =>
            rw [List.intercalate_singleton] at hmem
            exact ⟨piece, List.mem_cons_self, hmem⟩
        | cons next pieces =>
            rw [List.intercalate_cons_cons, List.mem_append, List.mem_append,
              List.mem_singleton] at hmem
            rcases hmem with (hmem | hsep) | hmem
            · exact ⟨piece, List.mem_cons_self, hmem⟩
            · exact absurd hsep hne
            · obtain ⟨found, hfound, hc⟩ := ih hmem
              exact ⟨found, List.mem_cons_of_mem piece hfound, hc⟩
  have hjoined : [sep].intercalate (text.toList.splitOn sep) = text.toList :=
    List.intercalate_splitOn sep
  rw [← hjoined] at h
  obtain ⟨piece, hpiece, hc⟩ := hpieces _ h
  exact ⟨String.ofList piece, List.mem_map_of_mem hpiece, by rwa [String.toList_ofList]⟩

/-- Taking a separator off the end of a text does nothing where it does not end in one. -/
lemma trimEndChar_append {c : Char} {text : String} (h : text.toList.getLast? ≠ some c) (n : ℕ) :
    trimEndChar c (text ++ String.ofList (List.replicate n c)) = text := by
  have hall : ∀ d ∈ List.replicate n c, decide (d = c) = true := by
    intro d hd
    rw [List.eq_of_mem_replicate hd, decide_eq_true_eq]
  have hstop : text.toList.reverse.dropWhile (fun d => decide (d = c)) = text.toList.reverse := by
    rw [← List.head?_reverse] at h
    cases hlist : text.toList.reverse with
    | nil => rfl
    | cons d rest =>
        rw [hlist, List.head?_cons] at h
        exact List.dropWhile_cons_of_neg (by simpa using h)
  rw [trimEndChar, String.toList_append, String.toList_ofList, List.reverse_append,
    List.reverse_replicate, List.dropWhile_append_of_pos hall, hstop, List.reverse_reverse,
    String.ofList_toList]

/-- What is taken off the end is the separator, as often as it stands there. -/
lemma trimEndChar_spec (c : Char) (text : String) :
    (trimEndChar c text).toList.getLast? ≠ some c ∧
      ∃ n, text = trimEndChar c text ++ String.ofList (List.replicate n c) := by
  let p : Char → Bool := fun d => decide (d = c)
  refine ⟨?_, (text.toList.reverse.takeWhile p).length, ?_⟩
  · intro hlast
    rw [trimEndChar, String.toList_ofList, List.getLast?_reverse] at hlast
    have hstop := List.head?_dropWhile_not p text.toList.reverse
    rw [hlast] at hstop
    simp [p] at hstop
  · have htaken : text.toList.reverse.takeWhile p =
        List.replicate (text.toList.reverse.takeWhile p).length c := by
      refine List.eq_replicate_of_mem fun d hd => ?_
      simpa [p] using List.mem_takeWhile_imp hd
    have hparts := List.takeWhile_append_dropWhile (l := text.toList.reverse) (p := p)
    rw [← String.toList_inj, trimEndChar, String.toList_append, String.toList_ofList,
      String.toList_ofList]
    conv_lhs => rw [← List.reverse_reverse text.toList, ← hparts, List.reverse_append, htaken,
      List.reverse_replicate]

/-- What is taken off the end is the separator alone. -/
lemma mem_trimEndChar {sep c : Char} {text : String} (hne : c ≠ sep) (h : c ∈ text.toList) :
    c ∈ (trimEndChar sep text).toList := by
  have hparts := List.takeWhile_append_dropWhile (l := text.toList.reverse)
    (p := fun d => decide (d = sep))
  rw [← List.mem_reverse, ← hparts, List.mem_append] at h
  rw [trimEndChar, String.toList_ofList, List.mem_reverse]
  refine h.resolve_left fun hmem => hne ?_
  simpa using List.mem_takeWhile_imp hmem

/-- What is taken off the end is the text that is looked for alone. -/
lemma mem_trimEndTimes {c : Char} {back text : String} (n : ℕ) (h : c ∈ text.toList) :
    c ∈ back.toList ∨ c ∈ (trimEndTimes back n text).toList := by
  induction n generalizing text with
  | zero => exact .inr h
  | succ n ih =>
      rw [trimEndTimes_succ]
      cases hstrip : stripSuffix back text with
      | none => exact .inr h
      | some rest =>
          rw [stripSuffix_eq_some_iff.mp hstrip, String.toList_append, List.mem_append] at h
          rcases h with hrest | hback
          · exact ih hrest
          · exact .inl hback

/-- Once for each character is as often as a text that is not empty can be taken off. -/
lemma trimEndTimes_eq {back : String} (hback : back ≠ "") {m n : ℕ} {text : String}
    (hm : text.length ≤ m) (hn : text.length ≤ n) :
    trimEndTimes back m text = trimEndTimes back n text := by
  have hempty : ∀ n, trimEndTimes back n "" = "" := by
    intro n
    cases n with
    | zero => rfl
    | succ n =>
        have hnone : stripSuffix back "" = none := stripSuffix_eq_none_iff.mpr fun rest hsplit =>
          hback (String.append_eq_empty_iff.mp hsplit.symm).2
        rw [trimEndTimes_succ, hnone]
  induction m generalizing n text with
  | zero =>
      obtain rfl := String.length_eq_zero_iff.mp (Nat.le_zero.mp hm)
      rw [hempty, hempty]
  | succ m ih =>
      cases n with
      | zero =>
          obtain rfl := String.length_eq_zero_iff.mp (Nat.le_zero.mp hn)
          rw [hempty, hempty]
      | succ n =>
          rw [trimEndTimes_succ, trimEndTimes_succ]
          cases hstrip : stripSuffix back text with
          | none => rfl
          | some rest =>
              have hlength : 0 < back.length := Nat.pos_of_ne_zero fun hzero =>
                hback (String.length_eq_zero_iff.mp hzero)
              rw [stripSuffix_eq_some_iff.mp hstrip, String.length_append] at hm hn
              exact ih (by omega) (by omega)

/-- One more occurrence at the end is one more taken off. -/
lemma trimEndText_append {back : String} (hback : back ≠ "") (text : String) :
    trimEndText back (text ++ back) = trimEndText back text := by
  have hlength : 0 < back.length := Nat.pos_of_ne_zero fun hzero =>
    hback (String.length_eq_zero_iff.mp hzero)
  obtain ⟨n, hn⟩ : ∃ n, (text ++ back).length = n + 1 :=
    Nat.exists_eq_add_one.mpr (by rw [String.length_append]; omega)
  rw [trimEndText, hn, trimEndTimes_succ, stripSuffix_append]
  rw [String.length_append] at hn
  exact trimEndTimes_eq hback (by omega) le_rfl

lemma trimEndText_of_not_endsWith {back text : String} (h : endsWith back text = false) :
    trimEndText back text = text := by
  rw [trimEndText]
  cases text.length with
  | zero => rfl
  | succ n => rw [trimEndTimes_succ, stripSuffix_eq_none_iff.mpr (endsWith_eq_false_iff.mp h)]

/-- What is left of a text after each occurrence of `pat` has become `new`, the first `skip`
characters belonging to an occurrence already replaced. -/
def replaceFrom (pat new : List Char) : ℕ → List Char → List Char
  | _, [] => []
  | skip + 1, _ :: cs => replaceFrom pat new skip cs
  | 0, c :: cs =>
    if pat.isPrefixOf (c :: cs) then new ++ replaceFrom pat new (pat.length - 1) cs
    else c :: replaceFrom pat new 0 cs

/-- `str::replace`, for a pattern that is not empty. -/
def replaceAll (pat new text : String) : String :=
  String.ofList (replaceFrom pat.toList new.toList 0 text.toList)

/-! ## Lines -/

/-- `str::lines`. -/
def textLines (text : String) : List String :=
  let pieces := text.toList.splitOn '\n'
  (pieces.dropLast.map fun line => if line.getLast? = some '\r' then line.dropLast else line).map
      String.ofList ++
    ((pieces.getLast?.filter (· ≠ [])).map String.ofList).toList

/-- `str::trim`. -/
def trim (text : String) : String :=
  String.ofList ((text.toList.dropWhile isWhitespace).reverse.dropWhile isWhitespace).reverse

/-- The line feed after a text is trimmed off it. -/
lemma trim_append_lineFeed (text : String) : trim (text ++ "\n") = trim text := by
  have hfeed : isWhitespace '\n' = true := by decide
  have hlist : (text ++ "\n").toList = text.toList ++ ['\n'] := by simp
  rw [trim, trim, hlist, List.dropWhile_append]
  split
  · rename_i hempty
    rw [List.isEmpty_iff.mp hempty, List.dropWhile_cons_of_pos hfeed]
    rfl
  · rw [List.reverse_append, List.reverse_singleton, List.singleton_append,
      List.dropWhile_cons_of_pos hfeed]

/-- Terminated lines and a last one without its end are read as they are. -/
lemma textLines_of_toList {text last : String} {lines : List String}
    (htext : text.toList = (lines.flatMap fun line => line.toList ++ ['\n']) ++ last.toList)
    (hlines : ∀ line ∈ lines, '\n' ∉ line.toList ∧ '\r' ∉ line.toList)
    (hlast : '\n' ∉ last.toList) (hne : last ≠ "") : textLines text = lines ++ [last] := by
  have hsplit : text.toList.splitOn '\n' = lines.map String.toList ++ [last.toList] := by
    have hshape : text.toList = ((lines.map String.toList).flatMap fun l => l ++ ['\n']) ++
        last.toList := by rw [htext, List.flatMap_map]
    rw [hshape]
    refine splitOn_lines (fun l hl => ?_) hlast
    obtain ⟨line, hline, rfl⟩ := List.mem_map.mp hl
    exact (hlines line hline).1
  have hkept : ∀ line ∈ lines, String.ofList (if line.toList.getLast? = some '\r'
      then line.toList.dropLast else line.toList) = line := by
    intro line hline
    rw [if_neg fun hlast' => (hlines line hline).2 (List.mem_of_getLast? hlast'),
      String.ofList_toList]
  have hne' : last.toList ≠ [] := fun h => hne (String.toList_eq_nil_iff.mp h)
  simp only [textLines, hsplit, List.dropLast_concat, List.getLast?_concat, List.map_map]
  rw [List.map_congr_left (g := id) fun line hline => by simpa using hkept line hline]
  simp [hne']

/-- What is read up to a line end does not depend on what comes after it. -/
lemma textLines_append (text rest : String) :
    textLines (text ++ "\n" ++ rest) = textLines (text ++ "\n") ++ textLines rest := by
  have hne : rest.toList.splitOn '\n' ≠ [] := List.splitOn_ne_nil '\n' rest.toList
  have hsplit : ∀ back : String, (text ++ "\n" ++ back).toList.splitOn '\n' =
      text.toList.splitOn '\n' ++ back.toList.splitOn '\n' := by
    intro back
    have hlist : (text ++ "\n" ++ back).toList = text.toList ++ '\n' :: back.toList := by simp
    rw [hlist, List.splitOn_append_cons_self]
  have hended : (text ++ "\n").toList.splitOn '\n' = text.toList.splitOn '\n' ++ [[]] := by
    have hempty := hsplit ""
    rwa [String.append_empty] at hempty
  simp only [textLines, hsplit, hended, List.dropLast_append_of_ne_nil hne, List.dropLast_concat,
    List.getLast?_append_of_ne_nil _ hne, List.getLast?_concat, List.map_append]
  simp

/-- Texts that each end a line are read one after the other. -/
lemma textLines_join (texts : List String) :
    textLines (String.join (texts.map (· ++ "\n"))) =
      texts.flatMap fun text => textLines (text ++ "\n") := by
  induction texts with
  | nil => rfl
  | cons text texts ih =>
      rw [List.map_cons, String.join_cons, textLines_append, ih, List.flatMap_cons]

/-- A line without the carriage return that may end it. -/
def withoutReturn (line : String) : String :=
  String.ofList (if line.toList.getLast? = some '\r' then line.toList.dropLast else line.toList)

lemma withoutReturn_of_notMem {line : String} (h : '\r' ∉ line.toList) :
    withoutReturn line = line := by
  rw [withoutReturn, if_neg fun hlast => h (List.mem_of_getLast? hlast), String.ofList_toList]

/-- What stands before a space is not the end of its line. -/
lemma withoutReturn_append (lead text : String) :
    withoutReturn (lead ++ (" " ++ text)) = lead ++ (" " ++ withoutReturn text) := by
  have hlist : (lead ++ (" " ++ text)).toList = (lead.toList ++ [' ']) ++ text.toList := by simp
  rw [← String.toList_inj]
  by_cases hnone : text.toList = []
  · have hnone' : text = "" := String.toList_eq_nil_iff.mp hnone
    subst hnone'
    simp [withoutReturn]
  · simp only [withoutReturn, hlist, List.getLast?_append_of_ne_nil _ hnone,
      List.dropLast_append_of_ne_nil hnone, String.toList_ofList, String.toList_append]
    split <;> simp

/-- A text without a line feed is one line. -/
lemma textLines_of_notMem {text : String} (hfeed : '\n' ∉ text.toList) :
    textLines (text ++ "\n") = [withoutReturn text] := by
  have hlist : (text ++ "\n").toList = text.toList ++ '\n' :: [] := by simp
  have hsplit : (text ++ "\n").toList.splitOn '\n' = [text.toList, []] := by
    rw [hlist, List.splitOn_append_cons_self_of_not_mem hfeed, List.splitOn_nil]
  rw [textLines, hsplit]
  simp [withoutReturn]

/-- A text without a line end is one line. -/
lemma textLines_line {text : String} (hfeed : '\n' ∉ text.toList) (hreturn : '\r' ∉ text.toList) :
    textLines (text ++ "\n") = [text] := by
  rw [textLines_of_notMem hfeed, withoutReturn_of_notMem hreturn]

/-- A text has a first line, which is the same before whatever is put at its front. -/
lemma exists_first_line {lead : String} (hlead : '\n' ∉ lead.toList) (text : String) :
    ∃ first later, textLines (text ++ "\n") = first :: later ∧
      textLines (lead ++ (" " ++ text) ++ "\n") = (lead ++ (" " ++ first)) :: later := by
  by_cases hfeed : '\n' ∈ text.toList
  · obtain ⟨front, back, hfront, rfl⟩ := exists_append_of_mem hfeed
    have hwhole : '\n' ∉ (lead ++ (" " ++ front)).toList := by simp [hlead, hfront]
    refine ⟨withoutReturn front, textLines (back ++ "\n"), ?_, ?_⟩
    · have hparts : front ++ (String.singleton '\n' ++ back) ++ "\n" =
          front ++ "\n" ++ (back ++ "\n") := by simp [String.append_assoc]
      rw [hparts, textLines_append, textLines_of_notMem hfront, List.singleton_append]
    · have hparts : lead ++ (" " ++ (front ++ (String.singleton '\n' ++ back))) ++ "\n" =
          lead ++ (" " ++ front) ++ "\n" ++ (back ++ "\n") := by simp [String.append_assoc]
      rw [hparts, textLines_append, textLines_of_notMem hwhole, withoutReturn_append,
        List.singleton_append]
  · have hwhole : '\n' ∉ (lead ++ (" " ++ text)).toList := by simp [hlead, hfeed]
    exact ⟨withoutReturn text, [], textLines_of_notMem hfeed,
      by rw [textLines_of_notMem hwhole, withoutReturn_append]⟩

/-- What follows the first space of each line that has one. -/
def afterSpaces (lines : List String) : List String :=
  lines.filterMap fun line => (splitOnce " " line).map Prod.snd

/-- A part without a space has a say in no line; the line it ends on counts from what follows it. -/
lemma afterSpaces_textLines {lead : String} (hspace : ' ' ∉ lead.toList) (text : String) :
    ∃ first later, textLines (text ++ "\n") = first :: later ∧
      afterSpaces (textLines (lead ++ (" " ++ text) ++ "\n")) = first :: afterSpaces later := by
  induction hlength : lead.length using Nat.strong_induction_on generalizing lead with
  | _ n ih =>
    by_cases hfeed : '\n' ∈ lead.toList
    · obtain ⟨front, back, hfront, rfl⟩ := exists_append_of_mem hfeed
      have hneither : ' ' ∉ front.toList ∧ ' ' ∉ back.toList := by simpa using hspace
      have hless : back.length < n := by
        have hone : (String.singleton '\n').length = 1 := by decide
        rw [← hlength, String.length_append, String.length_append, hone]
        omega
      obtain ⟨first, later, hlines, hafter⟩ := ih _ hless hneither.2 rfl
      refine ⟨first, later, hlines, ?_⟩
      have hparts : front ++ (String.singleton '\n' ++ back) ++ (" " ++ text) ++ "\n" =
          front ++ "\n" ++ (back ++ (" " ++ text) ++ "\n") := by simp [String.append_assoc]
      have hdropped : ' ' ∉ (withoutReturn front).toList := by
        rw [withoutReturn, String.toList_ofList]
        split
        · exact fun hmem => hneither.1 (List.mem_of_mem_dropLast hmem)
        · exact hneither.1
      rw [hparts, textLines_append, textLines_of_notMem hfront, List.singleton_append, ← hafter]
      have hnone : splitOnce " " (withoutReturn front) = none :=
        @splitOnce_of_notMem ' ' (withoutReturn front) hdropped
      simp [afterSpaces, hnone]
    · obtain ⟨first, later, hlines, hwhole⟩ := exists_first_line hfeed text
      refine ⟨first, later, hlines, ?_⟩
      have hsome : splitOnce " " (lead ++ (" " ++ first)) = some (lead, first) :=
        @splitOnce_append ' ' lead hspace first
      rw [hwhole]
      simp [afterSpaces, hsome]

/-! ## Numbers -/

/-- `u64::MAX`. -/
def u64Max : ℕ := 2 ^ 64 - 1

/-- The digits of a number as `str::parse` takes them: a `+` may stand before them. -/
def unsignedDigits (text : String) : List Char :=
  match text.toList with
  | '+' :: digits => digits
  | digits => digits

/-- `str::parse::<u64>`. -/
def parseU64 (text : String) : Option ℕ :=
  let digits := unsignedDigits text
  if digits ≠ [] ∧ digits.all Char.isDigit ∧ Nat.ofDigitChars 10 digits 0 ≤ u64Max then
    some (Nat.ofDigitChars 10 digits 0)
  else none

lemma toString_digits (n : ℕ) : ∀ c ∈ (toString n).toList, c.isDigit := by
  intro c hc
  rw [Nat.toString_eq_ofList_toDigits, String.toList_ofList] at hc
  exact Nat.isDigit_of_mem_toDigits (by omega) (by omega) hc

lemma unsignedDigits_toString (n : ℕ) : unsignedDigits (toString n) = Nat.toDigits 10 n := by
  have hlist : (toString n).toList = Nat.toDigits 10 n := by
    rw [Nat.toString_eq_ofList_toDigits, String.toList_ofList]
  unfold unsignedDigits
  split
  · rename_i digits hplus
    have hdigit := toString_digits n '+' (by rw [hplus]; exact List.mem_cons_self)
    exact absurd hdigit (by decide)
  · exact hlist

/-- A number that fits is read back as it was written. -/
lemma parseU64_toString {n : ℕ} (h : n ≤ u64Max) : parseU64 (toString n) = some n := by
  have hdigits : (Nat.toDigits 10 n).all Char.isDigit = true := by
    rw [List.all_eq_true]
    exact fun c hc => Nat.isDigit_of_mem_toDigits (by omega) (by omega) hc
  simp only [parseU64, unsignedDigits_toString, Nat.ofDigitChars_ten_toDigits]
  exact if_pos ⟨Nat.toDigits_ne_nil, hdigits, h⟩

lemma le_of_parseU64 {text : String} {n : ℕ} (h : parseU64 text = some n) : n ≤ u64Max := by
  simp only [parseU64, Option.ite_none_right_eq_some, Option.some.injEq] at h
  obtain ⟨⟨-, -, hle⟩, rfl⟩ := h
  exact hle

lemma toString_injective : Function.Injective (toString : ℕ → String) := by
  intro m n h
  have hdigits : Nat.toDigits 10 m = Nat.toDigits 10 n := by
    rw [← unsignedDigits_toString, h, unsignedDigits_toString]
  rw [← Nat.ofDigitChars_ten_toDigits (n := m), hdigits, Nat.ofDigitChars_ten_toDigits]

end AssemblyLine
