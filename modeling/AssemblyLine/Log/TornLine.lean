import AssemblyLine.Log.EventLog

/-!
# A log whose last line is torn

A crash while an event is written leaves some of its line's bytes behind the lines before it.
`readEvents` reads the lines before it parses any of them, and a line is text only if its bytes
decode, so what is left may end inside a character and make the whole log unreadable.

`torn_line_iff` is when it does not: the events before the torn line are read back exactly when the
cut falls between two characters.
-/

namespace AssemblyLine

section Torn

variable {json : JsonRecords Event} {events : List Event} {e : Event} {part rest : List UInt8}

/-- The lines of a log that ends in a part of a line. -/
lemma bufLines_torn (events : List Event) (hfeed : lineFeed ∉ part) :
    bufLines (json.bytesOf events ++ part) =
      (events.map fun e => utf8 (json.write e)) ++ if part = [] then [] else [part] := by
  have hshape : json.bytesOf events =
      (events.map fun e => utf8 (json.write e)).flatMap fun l => l ++ [lineFeed] := by
    simp [JsonLines.bytesOf, List.flatMap_map]
  have hlines : ∀ l ∈ events.map fun e => utf8 (json.write e), lineFeed ∉ l := by
    intro l hl
    obtain ⟨e, -, rfl⟩ := List.mem_map.mp hl
    exact json.noLineFeed e
  have hstrip : (events.map fun e => utf8 (json.write e)).map stripCarriageReturn =
      events.map fun e => utf8 (json.write e) := by
    rw [List.map_map]
    exact List.map_congr_left fun e _ => stripCarriageReturn_of_notMem (json.noCarriageReturn e)
  rw [hshape, bufLines, splitOn_lines hlines hfeed, List.dropLast_concat, hstrip,
    List.getLast?_concat]
  by_cases hpart : part = []
  · simp [hpart]
  · simp [hpart]

/-- A log that ends in a part of a line reads when that part decodes: as its events, and what the
part's text is, if it is one. -/
lemma readEvents_torn (events : List Event) (hfeed : lineFeed ∉ part) :
    readEvents json.toJsonLines (json.bytesOf events ++ part) =
      (fromUtf8 part).map fun text =>
        events ++ (SharedLog.readLine json.toJsonLines text).toList := by
  have hwritten : (events.map fun e => utf8 (json.write e)).mapM fromUtf8 =
      some (events.map json.write) := by
    have htexts := SharedLog.mapM_fromUtf8 (events.map json.write)
    rwa [List.map_map] at htexts
  have hread : (events.map json.write).filterMap (SharedLog.readLine json.toJsonLines) = events :=
    SharedLog.filterMap_readLine events
  rw [SharedLog.readEvents_eq, bufLines_torn events hfeed, List.mapM_append, hwritten]
  by_cases hpart : part = []
  · subst hpart
    have hempty : fromUtf8 [] = some "" := fromUtf8_utf8 ""
    simp [hempty, hread, SharedLog.readLine, isBlank]
  · rw [if_neg hpart]
    cases htext : fromUtf8 part with
    | none => simp [htext]
    | some text =>
        have hlast : [text].filterMap (SharedLog.readLine json.toJsonLines) =
            (SharedLog.readLine json.toJsonLines text).toList := by
          cases hline : SharedLog.readLine json.toJsonLines text <;> simp [hline]
        simp only [List.mapM_cons, List.mapM_nil, htext, Option.pure_def, Option.bind_eq_bind,
          Option.bind_some, Option.map_some, List.filterMap_append, hread, hlast]

/-- **When a torn line costs no earlier event.**  A log of complete lines that ends in part of
another event's line is read as the events of the complete lines exactly when the cut falls between
two characters of that line. -/
theorem torn_line_iff (cut : json.CutUnread) (hwritten : utf8 (json.write e) = part ++ rest)
    (hproper : rest ≠ []) :
    readEvents json.toJsonLines (json.bytesOf events ++ part) = some events ↔
      ∃ front back, json.write e = front ++ back ∧ part = utf8 front := by
  have hfeed : lineFeed ∉ part := by
    intro hmem
    apply json.noLineFeed e
    rw [hwritten]
    exact List.mem_append_left _ hmem
  rw [readEvents_torn events hfeed]
  constructor
  · intro hread
    obtain ⟨front, hfront, -⟩ := Option.map_eq_some_iff.mp hread
    obtain ⟨back, htext⟩ := exists_append_of_fromUtf8 hwritten hfront
    exact ⟨front, back, htext, (utf8_of_fromUtf8 hfront).symm⟩
  · rintro ⟨front, back, htext, rfl⟩
    have hback : back ≠ "" := by
      rintro rfl
      rw [htext, utf8_append] at hwritten
      exact hproper (List.append_cancel_left hwritten).symm
    have hunread : SharedLog.readLine json.toJsonLines front = none := by
      unfold SharedLog.readLine
      rw [cut e front back htext hback]
      split <;> rfl
    rw [fromUtf8_utf8, Option.map_some, hunread]
    exact congrArg some (List.append_nil events)

end Torn

/-! ## A cut inside a character

The round's reason holds a letter of two bytes, and the write ends after the first of them. -/

/-- The event whose line is torn. -/
def tornEvent : Event := ⟨1786752000000000000, .roundFailed "no café"⟩

/-- What is written of its line before the letter. -/
def tornFront : String :=
  "\x7b\"at\":\"2026-08-15T00:00:00Z\",\"t\":\"round_failed\",\"reason\":\"no caf"

/-- The two events as they are written. -/
def tornLines : List (Event × String) :=
  [(pullRequestLine,
      "\x7b\"at\":\"2026-08-15T00:00:00Z\",\"t\":\"pull_request_opened\"," ++
        "\"url\":\"https://github.com/o/r/pull/7\"\x7d"),
    (tornEvent, tornFront ++ "é\"\x7d")]

lemma tornLines_ok : JsonRecords.TableOk tornLines := by decide

/-- A way of writing events that writes these two as they are written. -/
noncomputable def tornJson : JsonRecords Event := .ofTable tornLines tornLines_ok

lemma tornJson_write : tornJson.write tornEvent = tornFront ++ "é\"\x7d" := rfl

/-- The first of the letter's two bytes is written, and the other is not. -/
lemma utf8_tornEvent :
    utf8 (tornJson.write tornEvent) = (utf8 tornFront ++ [0xC3]) ++ ([0xA9] ++ utf8 "\"\x7d") := by
  rw [tornJson_write]
  rfl

/-- **The whole log is unreadable**, the complete line before the torn one included. -/
theorem torn_character :
    tornJson.CutUnread ∧
      utf8 (tornJson.write tornEvent) =
        (utf8 tornFront ++ [0xC3]) ++ ([0xA9] ++ utf8 "\"\x7d") ∧
      [0xA9] ++ utf8 "\"\x7d" ≠ [] ∧
      readEvents tornJson.toJsonLines
        (tornJson.bytesOf [pullRequestLine] ++ (utf8 tornFront ++ [0xC3])) = none := by
  refine ⟨JsonRecords.cutUnread_ofTable tornLines tornLines_ok, utf8_tornEvent, by simp, ?_⟩
  have hundecoded : fromUtf8 (utf8 tornFront ++ [0xC3]) = none := by rfl
  rw [readEvents_torn _ (by decide), hundecoded]
  rfl

/-- The same write, ended before the letter. -/
theorem torn_line_iff_boundary :
    readEvents tornJson.toJsonLines (tornJson.bytesOf [pullRequestLine] ++ utf8 tornFront) =
      some [pullRequestLine] := by
  have hwritten : utf8 (tornJson.write tornEvent) = utf8 tornFront ++ utf8 "é\"\x7d" := by
    rw [tornJson_write, utf8_append]
  exact (torn_line_iff (JsonRecords.cutUnread_ofTable tornLines tornLines_ok) hwritten
    (by decide)).mpr
    ⟨tornFront, _, tornJson_write, rfl⟩

end AssemblyLine
