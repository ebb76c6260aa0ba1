import AssemblyLine.Log.TornLine

/-!
# A log that ends anywhere

A process can die, or its file can be copied, with any number of a log's bytes written.
`log_cut_anywhere` says what is read of them: nothing at all when the cut falls inside a character,
and otherwise exactly the events whose line is whole, with or without its newline.  Of the reader it
is assumed that a document that is cut short is none (`JsonRecords.CutUnread`).
-/

namespace AssemblyLine

section Cut

variable (json : JsonRecords Event)

/-- How many of the events have their whole text among the first bytes of their log. -/
def wholeIn : List Event → List UInt8 → ℕ
  | [], _ => 0
  | e :: events, part =>
    if utf8 (json.write e) <+: part then
      wholeIn events (part.drop ((utf8 (json.write e)).length + 1)) + 1
    else 0

variable {json} {events front back : List Event} {part : List UInt8}

lemma utf8_write_ne_nil (e : Event) : utf8 (json.write e) ≠ [] := by
  intro hempty
  have hblank := json.notBlank e
  rw [utf8_injective (show utf8 (json.write e) = utf8 "" from hempty)] at hblank
  cases hblank

lemma wholeIn_nil (events : List Event) : wholeIn json events [] = 0 := by
  cases events with
  | nil => rfl
  | cons e events => rw [wholeIn, if_neg fun h => utf8_write_ne_nil e (List.prefix_nil.mp h)]

/-- Whole lines are counted one by one. -/
lemma wholeIn_append (front back : List Event) (part : List UInt8) :
    wholeIn json (front ++ back) (json.bytesOf front ++ part) =
      front.length + wholeIn json back part := by
  induction front with
  | nil => simp
  | cons e front ih =>
      have hbytes : json.bytesOf (e :: front) ++ part =
          utf8 (json.write e) ++ lineFeed :: (json.bytesOf front ++ part) := by
        simp [JsonLines.bytesOf]
      have hdrop : (utf8 (json.write e) ++ lineFeed :: (json.bytesOf front ++ part)).drop
          ((utf8 (json.write e)).length + 1) = json.bytesOf front ++ part := by
        rw [List.drop_append]
        simp
      rw [hbytes, List.cons_append, wholeIn, if_pos (List.prefix_append _ _), hdrop, ih,
        List.length_cons]
      omega

/-- The beginning of a log is whole lines and the beginning of one. -/
lemma exists_lines_of_prefix (h : part <+: json.bytesOf events) :
    ∃ front back rest, events = front ++ back ∧ part = json.bytesOf front ++ rest ∧
      (rest = [] ∨ ∃ e later, back = e :: later ∧ rest <+: utf8 (json.write e)) := by
  induction events generalizing part with
  | nil => exact ⟨[], [], [], rfl, List.prefix_nil.mp h, .inl rfl⟩
  | cons e events ih =>
      have hbytes : json.bytesOf (e :: events) =
          (utf8 (json.write e) ++ [lineFeed]) ++ json.bytesOf events := rfl
      rw [hbytes] at h
      obtain ⟨tail, htail⟩ := h
      rcases List.append_eq_append_iff.mp htail with ⟨more, hline, -⟩ | ⟨later, hpart, hlater⟩
      · -- the cut is within the first line or right after it
        rcases List.eq_nil_or_concat more with rfl | ⟨init, b, rfl⟩
        · refine ⟨[e], events, [], rfl, ?_, .inl rfl⟩
          rw [List.append_nil] at hline ⊢
          rw [← hline, JsonLines.bytesOf, List.flatMap_cons, List.flatMap_nil, List.append_nil]
        · refine ⟨[], e :: events, part, rfl, rfl, .inr ⟨e, events, rfl, init, ?_⟩⟩
          rw [List.concat_eq_append, ← List.append_assoc] at hline
          exact (List.append_inj' hline rfl).1.symm
      · obtain ⟨front, back, rest, rfl, hrest, hcut⟩ := ih ⟨tail, hlater.symm⟩
        refine ⟨e :: front, back, rest, rfl, ?_, hcut⟩
        rw [hpart, hrest]
        simp [JsonLines.bytesOf]

/-- Bytes after a text decode when all of them do. -/
lemma isSome_fromUtf8_append (text : String) (bytes : List UInt8) :
    (fromUtf8 (utf8 text ++ bytes)).isSome = (fromUtf8 bytes).isSome := by
  rw [Bool.eq_iff_iff, Option.isSome_iff_exists, Option.isSome_iff_exists]
  constructor
  · rintro ⟨all, hall⟩
    have hbytes := utf8_of_fromUtf8 hall
    obtain ⟨back, rfl⟩ := exists_append_of_fromUtf8 hbytes (fromUtf8_utf8 text)
    rw [utf8_append] at hbytes
    exact ⟨back, by rw [← List.append_cancel_left hbytes, fromUtf8_utf8]⟩
  · rintro ⟨back, hback⟩
    exact ⟨text ++ back, by rw [← utf8_of_fromUtf8 hback, ← utf8_append, fromUtf8_utf8]⟩

/-- Whole lines are text. -/
lemma exists_utf8_bytesOf (events : List Event) : ∃ text, json.bytesOf events = utf8 text := by
  induction events with
  | nil => exact ⟨"", rfl⟩
  | cons e events ih =>
      obtain ⟨text, htext⟩ := ih
      refine ⟨json.write e ++ "\n" ++ text, ?_⟩
      have hfeed : utf8 "\n" = [lineFeed] := rfl
      rw [utf8_append, utf8_append, hfeed, ← htext]
      rfl

/-- What is read of the beginning of a log whose reader reads no object that is cut short. -/
lemma readEvents_prefix (cut : json.CutUnread) (h : part <+: json.bytesOf events) :
    readEvents json.toJsonLines part =
      if (fromUtf8 part).isSome then some (events.take (wholeIn json events part)) else none := by
  obtain ⟨front, back, rest, rfl, rfl, hrest⟩ := exists_lines_of_prefix h
  obtain ⟨lines, hlines⟩ : ∃ lines, json.bytesOf front = utf8 lines := exists_utf8_bytesOf front
  have hdecodes : (fromUtf8 (json.bytesOf front ++ rest)).isSome = (fromUtf8 rest).isSome := by
    rw [hlines, isSome_fromUtf8_append]
  have hfeed : lineFeed ∉ rest := by
    rcases hrest with rfl | ⟨e, later, -, hbegins⟩
    · exact List.not_mem_nil
    · exact fun hmem => json.noLineFeed e (hbegins.subset hmem)
  rw [hdecodes, wholeIn_append, List.take_append, List.take_of_length_le (by omega),
    Nat.add_sub_cancel_left, readEvents_torn front hfeed]
  cases htext : fromUtf8 rest with
  | none => rfl
  | some text =>
      rw [Option.map_some, Option.isSome_some, if_pos rfl]
      congr 2
      rcases hrest with rfl | ⟨e, later, rfl, back, hback⟩
      · obtain rfl : "" = text := by
          have hempty : fromUtf8 [] = some "" := fromUtf8_utf8 ""
          exact Option.some.inj (hempty.symm.trans htext)
        rw [wholeIn_nil, SharedLog.readLine, if_pos (by decide)]
        rfl
      · obtain ⟨more, hmore⟩ := exists_append_of_fromUtf8 hback.symm htext
        have hrest := utf8_of_fromUtf8 htext
        by_cases hwhole : more = ""
        · -- the text is whole, and only its newline may be missing
          subst hwhole
          rw [String.append_empty] at hmore
          rw [← hmore] at hrest
          have hone : wholeIn json (e :: later) rest = 1 := by
            rw [wholeIn, ← hrest, if_pos (List.prefix_refl _),
              List.drop_eq_nil_of_le (by omega), wholeIn_nil]
          rw [hone, ← hmore, SharedLog.readLine, json.notBlank, json.read_write]
          rfl
        · have hnone : wholeIn json (e :: later) rest = 0 := by
            rw [wholeIn, if_neg]
            intro hbegins
            have hlength := hbegins.length_le
            rw [← hrest, hmore, utf8_append, List.length_append] at hlength
            have hnil : utf8 more = [] := List.length_eq_zero_iff.mp (by omega)
            exact hwhole (utf8_injective hnil)
          have hunread : SharedLog.readLine json.toJsonLines text = none := by
            unfold SharedLog.readLine
            rw [cut e text more hmore hwhole]
            split <;> rfl
          rw [hnone, hunread]
          rfl

/-- **What is left of a log that ends anywhere.**  Of any number of a log's first bytes, the events
whose line is whole are read, and no other; but none is read when the last byte is not the last of
its character. -/
theorem log_cut_anywhere (json : JsonRecords Event) (cut : json.CutUnread) (events : List Event)
    (k : ℕ) :
    readEvents json.toJsonLines ((json.bytesOf events).take k) =
      if (fromUtf8 ((json.bytesOf events).take k)).isSome then
        some (events.take (wholeIn json events ((json.bytesOf events).take k)))
      else none :=
  readEvents_prefix cut (List.take_prefix _ _)

/-- A log of two events, cut inside the second line. -/
theorem log_cut_anywhere_inside :
    readEvents tornJson.toJsonLines ((tornJson.bytesOf [pullRequestLine, tornEvent]).take 140) =
      some [pullRequestLine] := by
  have hdecodes : (fromUtf8 ((tornJson.bytesOf [pullRequestLine, tornEvent]).take 140)).isSome =
      true := by decide +kernel
  have hone : wholeIn tornJson [pullRequestLine, tornEvent]
      ((tornJson.bytesOf [pullRequestLine, tornEvent]).take 140) = 1 := by decide +kernel
  rw [log_cut_anywhere tornJson (JsonRecords.cutUnread_ofTable tornLines tornLines_ok),
    if_pos hdecodes, hone]
  rfl

end Cut

end AssemblyLine
