import AssemblyLine.Framework.Text

/-!
# What `git ls-remote` prints

A listing is a line for each ref, with the object it is at.  The callers of `git` trim what it
prints before they read its lines, so a listing is read line by line but for its last line, which
may have lost white space at its end.
-/

namespace AssemblyLine

/-! ## git -/

/-- A finished `git` invocation, before deciding whether its status matters. -/
structure GitOutput where
  exitCode : ℤ
  stdout : String
  stderr : String
deriving DecidableEq, Repr

/-- What running `git` came to: an error when it could not be run. -/
abbrev GitAnswer := Except String GitOutput

/-- `run_expecting_success`. -/
def GitAnswer.expectingSuccess (answer : GitAnswer) (operation : String) : Except String String :=
  match answer with
  | .error e => .error e
  | .ok out =>
    if out.exitCode = 0 then .ok (trim out.stdout)
    else .error s!"{operation} failed (exit {out.exitCode}): {trim out.stderr}"

/-! ## A listing -/

def isHexDigit (c : Char) : Bool := c.isDigit || ('a' ≤ c && c ≤ 'f')

/-- The id of an object. -/
def isObjectId (sha : String) : Bool := sha.toList ≠ [] && sha.toList.all isHexDigit

/-- `"<sha>\t<ref>"` per line. -/
def listingText (lines : List (String × String)) : String :=
  lines.foldr (fun line text => line.1 ++ "\t" ++ line.2 ++ "\n" ++ text) ""

/-! ## Reading a listing -/

section Listing

/-- The text ends in white space, which a reader that trims takes off. -/
def endsInWhite (text : String) : Bool := text.toList.getLast?.any isWhitespace

/-- A line of a listing: an object id, and a name on one line. -/
def Listable (line : String × String) : Prop :=
  isObjectId line.1 = true ∧ line.2.toList ≠ [] ∧ '\n' ∉ line.2.toList ∧ '\r' ∉ line.2.toList

variable {front back : List Char} {lines : List (String × String)} {line : String × String}

/-- Trimming at the end stops at the first character that is not white space. -/
lemma trimmed_append (back : List Char)
    (hfront : ∀ c ∈ front.getLast?, isWhitespace c = false) :
    ((front ++ back).reverse.dropWhile isWhitespace).reverse =
      front ++ (back.reverse.dropWhile isWhitespace).reverse := by
  have hstop : front.reverse.dropWhile isWhitespace = front.reverse := by
    rw [List.dropWhile_eq_self_iff]
    intro hpos
    have hlast := hfront (front.reverse[0]) (by
      rw [← List.head?_reverse, List.head?_eq_getElem?, List.getElem?_eq_getElem hpos]
      rfl)
    rw [hlast]
    decide
  rw [List.reverse_append, List.dropWhile_append]
  split
  · rename_i hempty
    rw [hstop, List.isEmpty_iff.mp hempty]
    simp
  · simp

lemma not_isWhitespace_of_isHexDigit {c : Char} (h : isHexDigit c = true) :
    isWhitespace c = false := by
  have hrange : (48 ≤ c.toNat ∧ c.toNat ≤ 57) ∨ (97 ≤ c.toNat ∧ c.toNat ≤ 102) := by
    simp only [isHexDigit, Char.isDigit, Bool.or_eq_true, Bool.and_eq_true, decide_eq_true_eq] at h
    rcases h with ⟨hlow, hhigh⟩ | ⟨hlow, hhigh⟩
    · exact Or.inl ⟨UInt32.le_iff_toNat_le.mp hlow, UInt32.le_iff_toNat_le.mp hhigh⟩
    · exact Or.inr ⟨UInt32.le_iff_toNat_le.mp (Char.le_def.mp hlow),
        UInt32.le_iff_toNat_le.mp (Char.le_def.mp hhigh)⟩
  simp only [isWhitespace, List.mem_cons, List.not_mem_nil, or_false, decide_eq_false_iff_not]
  omega

/-- An object id is not empty, and holds nothing but digits. -/
lemma mem_of_isObjectId {sha : String} (h : isObjectId sha = true) :
    sha.toList ≠ [] ∧ ∀ c ∈ sha.toList, isHexDigit c = true := by
  simpa [isObjectId] using h

lemma notMem_of_isObjectId {sha : String} {c : Char} (h : isObjectId sha = true)
    (hc : isHexDigit c = false) : c ∉ sha.toList := by
  intro hmem
  rw [(mem_of_isObjectId h).2 c hmem] at hc
  cases hc

lemma toList_listingText (lines : List (String × String)) :
    (listingText lines).toList =
      lines.flatMap fun line => (line.1 ++ "\t" ++ line.2).toList ++ ['\n'] := by
  induction lines with
  | nil => rfl
  | cons line lines ih =>
      have hcons : listingText (line :: lines) =
          line.1 ++ "\t" ++ line.2 ++ "\n" ++ listingText lines := rfl
      rw [hcons, String.toList_append, ih]
      simp

/-- What trimming leaves of a listing: its last line may have lost white space at its end. -/
lemma toList_trim_listingText (hall : ∀ l ∈ lines ++ [line], Listable l) :
    (trim (listingText (lines ++ [line]))).toList =
      (lines.flatMap fun l => (l.1 ++ "\t" ++ l.2).toList ++ ['\n']) ++
        (line.1.toList ++
          (('\t' :: line.2.toList).reverse.dropWhile isWhitespace).reverse) := by
  obtain ⟨hne, hhex⟩ := mem_of_isObjectId (hall line (by simp)).1
  have hopens : ∀ l ∈ lines ++ [line], ∃ c rest, l.1.toList = c :: rest ∧
      isWhitespace c = false := by
    intro l hl
    obtain ⟨hne, hhex⟩ := mem_of_isObjectId (hall l hl).1
    obtain ⟨c, rest, hc⟩ := List.exists_cons_of_ne_nil hne
    exact ⟨c, rest, hc, not_isWhitespace_of_isHexDigit (hhex c (by simp [hc]))⟩
  have hstart : (listingText (lines ++ [line])).toList.dropWhile isWhitespace =
      (listingText (lines ++ [line])).toList := by
    rw [toList_listingText]
    cases hlines : lines ++ [line] with
    | nil => simp at hlines
    | cons l rest =>
        obtain ⟨c, cs, hc, hwhite⟩ := hopens l (by simp [hlines])
        simp [hc, hwhite]
  have hsplit : (listingText (lines ++ [line])).toList =
      ((lines.flatMap fun l => (l.1 ++ "\t" ++ l.2).toList ++ ['\n']) ++ line.1.toList) ++
        ('\t' :: line.2.toList ++ ['\n']) := by
    rw [toList_listingText]
    simp
  have hlast : ∀ c ∈ ((lines.flatMap fun l => (l.1 ++ "\t" ++ l.2).toList ++ ['\n']) ++
      line.1.toList).getLast?, isWhitespace c = false := by
    intro c hc
    rw [List.getLast?_append_of_ne_nil _ hne] at hc
    exact not_isWhitespace_of_isHexDigit (hhex c (List.mem_of_getLast? hc))
  have hfeed : (('\t' :: line.2.toList ++ ['\n']).reverse.dropWhile isWhitespace) =
      ('\t' :: line.2.toList).reverse.dropWhile isWhitespace := by
    rw [List.reverse_append, List.reverse_singleton, List.singleton_append, List.dropWhile_cons,
      if_pos (by decide)]
  rw [trim, String.toList_ofList, hstart, hsplit, trimmed_append _ hlast, hfeed, List.append_assoc]

/-- A name that ends in white space loses it, with the tab before it if nothing is left. -/
lemma trimmed_of_endsInWhite (name : String) :
    (('\t' :: name.toList).reverse.dropWhile isWhitespace).reverse = [] ∨
      ∃ kept : String, (('\t' :: name.toList).reverse.dropWhile isWhitespace).reverse =
          '\t' :: kept.toList ∧ endsInWhite kept = false ∧ ∀ c ∈ kept.toList, c ∈ name.toList := by
  rw [List.reverse_cons, List.dropWhile_append]
  cases hleft : name.toList.reverse.dropWhile isWhitespace with
  | nil =>
      have htab : ['\t'].dropWhile isWhitespace = [] := by decide
      exact Or.inl (by simp [htab])
  | cons c rest =>
      refine Or.inr ⟨String.ofList (c :: rest).reverse, by simp, ?_, fun d hd => ?_⟩
      · have hstop := List.head?_dropWhile_not isWhitespace name.toList.reverse
        rw [hleft] at hstop
        simpa [endsInWhite] using hstop
      · have hsub : c :: rest ⊆ name.toList.reverse := by
          rw [← hleft]
          exact (List.dropWhile_sublist _).subset
        exact List.mem_reverse.mp (hsub (by simpa [or_comm] using hd))

/-- A name that does not end in white space is left as it is. -/
lemma trimmed_of_not_endsInWhite {name : String} (hne : name.toList ≠ [])
    (h : endsInWhite name = false) :
    (('\t' :: name.toList).reverse.dropWhile isWhitespace).reverse = '\t' :: name.toList := by
  have hlast : ∀ c ∈ ('\t' :: name.toList).getLast?, isWhitespace c = false := by
    intro c hc
    rw [← List.singleton_append, List.getLast?_append_of_ne_nil _ hne] at hc
    rw [endsInWhite, hc] at h
    exact h
  simpa using trimmed_append [] hlast

/-- **The lines of a trimmed listing**: as they were printed, but that the last may have lost white
space. -/
lemma textLines_listingText (hall : ∀ l ∈ lines ++ [line], Listable l) : ∃ kept : String,
    textLines (trim (listingText (lines ++ [line]))) =
        (lines.map fun l => l.1 ++ "\t" ++ l.2) ++ [line.1 ++ kept] ∧
      (endsInWhite line.2 = false → kept = "\t" ++ line.2) ∧
      (endsInWhite line.2 = true → kept = "" ∨ ∃ name : String, kept = "\t" ++ name ∧
        endsInWhite name = false ∧ ∀ c ∈ name.toList, c ∈ line.2.toList) := by
  obtain ⟨hline, hname, hfeed, hreturn⟩ := hall line (by simp)
  have htexts : ∀ text ∈ lines.map fun l => l.1 ++ "\t" ++ l.2,
      '\n' ∉ text.toList ∧ '\r' ∉ text.toList := by
    intro text htext
    obtain ⟨l, hl, rfl⟩ := List.mem_map.mp htext
    obtain ⟨hsha, -, hfeed, hreturn⟩ := hall l (by simp [hl])
    have hshafeed := notMem_of_isObjectId hsha (show isHexDigit '\n' = false by decide)
    have hshareturn := notMem_of_isObjectId hsha (show isHexDigit '\r' = false by decide)
    simp [hfeed, hreturn, hshafeed, hshareturn]
  have hsplit : ∀ kept : String, '\n' ∉ kept.toList →
      (('\t' :: line.2.toList).reverse.dropWhile isWhitespace).reverse = kept.toList →
      textLines (trim (listingText (lines ++ [line]))) =
        (lines.map fun l => l.1 ++ "\t" ++ l.2) ++ [line.1 ++ kept] := by
    intro kept hkept heq
    have htext : (trim (listingText (lines ++ [line]))).toList =
        ((lines.map fun l => l.1 ++ "\t" ++ l.2).flatMap fun text => text.toList ++ ['\n']) ++
          (line.1 ++ kept).toList := by
      rw [toList_trim_listingText hall, heq, List.flatMap_map, String.toList_append]
    have hlast : '\n' ∉ (line.1 ++ kept).toList := by
      have hsha := notMem_of_isObjectId hline (show isHexDigit '\n' = false by decide)
      simp [hsha, hkept]
    have hne : line.1 ++ kept ≠ "" := by
      intro hempty
      have hlist := congrArg String.toList hempty
      rw [String.toList_append] at hlist
      exact (mem_of_isObjectId hline).1 (List.append_eq_nil_iff.mp hlist).1
    exact textLines_of_toList htext htexts hlast hne
  cases hwhite : endsInWhite line.2 with
  | false =>
      have hkept := trimmed_of_not_endsInWhite hname hwhite
      exact ⟨"\t" ++ line.2, hsplit _ (by simp [hfeed]) (by rw [hkept]; simp), by simp⟩
  | true =>
      rcases trimmed_of_endsInWhite line.2 with hnothing | ⟨name, hkept, hstop, hchars⟩
      · exact ⟨"", hsplit _ (by simp) (by rw [hnothing]; rfl), by simp⟩
      · have hfeed' : '\n' ∉ name.toList := fun h => hfeed (hchars _ h)
        refine ⟨"\t" ++ name, hsplit _ (by simp [hfeed']) (by rw [hkept]; simp), by simp, ?_⟩
        exact fun _ => .inr ⟨name, rfl, hstop, hchars⟩

end Listing

end AssemblyLine
