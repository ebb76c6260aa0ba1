import AssemblyLine.Framework.Scraps
import AssemblyLine.Log.TornLine

/-!
# Appending after an append that was cut short

The reader of a log skips a line that does not parse, and so outlives an append that was cut short.
The writer never looks at how the file ends: `EventLog.openAppend` leaves it as it is, and the line
appended next goes on where the torn one ended.

`resumes_cleanly_iff` is when what is appended after a cut is read: when nothing was left of the
line that was cut.  Otherwise the first event appended shares a line with what was left, and is lost
(`append_after_torn_line` has a round's start lost to the line of the request before it).
-/

namespace AssemblyLine

/-- A use of a job's log: it is opened, or an event is appended to it. -/
inductive LogUse
  | openAppend (answers : List SinkAnswer)
  | append (now : Instant) (kind : EventKind)
deriving DecidableEq, Repr

/-- The events some uses append. -/
def appendedBy (uses : List LogUse) : List Event :=
  uses.filterMap fun use => match use with
    | .openAppend _ => none
    | .append now kind => some ⟨now, kind⟩

namespace EventLog

variable (json : JsonLines Event)

/-- Open a log for appending.  A file that is not there is created; it is never truncated. -/
def openAppend (file : Option (List UInt8)) (answers : List SinkAnswer) : EventLog Sink :=
  ⟨⟨file.getD [], [], answers⟩⟩

/-- Use a log; `none` when an append fails. -/
def useAll : EventLog Sink → List LogUse → Option (EventLog Sink)
  | log, [] => some log
  | log, .openAppend answers :: uses => useAll (openAppend (some log.sink.stream) answers) uses
  | log, .append now kind :: uses =>
    match log.append json Sink.failing now kind with
    | (_, none) => none
    | (log, some _) => useAll log uses

/-! ## What successful appends write -/

variable {json}

lemma writeLine_eq {W : Type} (dest : WriteTo W) (log : EventLog W) (event : Event) :
    log.writeLine json dest event =
      (⟨(dest.line log.sink (utf8 (json.write event))).1⟩,
        (dest.line log.sink (utf8 (json.write event))).2) := by
  unfold writeLine WriteTo.line
  rcases dest.writeAll log.sink (utf8 (json.write event)) with ⟨sink, _ | _⟩
  · rfl
  · dsimp only
    rcases dest.writeAll sink [lineFeed] with ⟨sink, _ | _⟩ <;> rfl

/-- An append that succeeds has written its event's line after all that was there. -/
lemma append_ok {log log' : EventLog Sink} {now : Instant} {kind : EventKind} {e : Event}
    (h : log.append json Sink.failing now kind = (log', some e)) :
    log'.sink.stream = log.sink.given ++ (utf8 (json.write ⟨now, kind⟩) ++ [lineFeed]) ∧
      log'.sink.held = [] := by
  unfold append at h
  rw [writeLine_eq] at h
  cases hline : Sink.failing.line log.sink (utf8 (json.write ⟨now, kind⟩)) with
  | mk sink ok =>
      rw [hline] at h
      cases ok with
      | false => cases h
      | true =>
          cases h
          exact (Sink.line_spec hline).2.2 rfl

lemma useAll_stream {uses : List LogUse} {log log' : EventLog Sink} (hheld : log.sink.held = [])
    (h : log.useAll json uses = some log') :
    log'.sink.stream = log.sink.stream ++ json.bytesOf (appendedBy uses) := by
  induction uses generalizing log with
  | nil =>
      cases h
      exact (List.append_nil _).symm
  | cons use uses ih =>
      cases use with
      | openAppend answers => exact @ih (openAppend (some log.sink.stream) answers) rfl h
      | append now kind =>
          unfold useAll at h
          cases happend : log.append json Sink.failing now kind with
          | mk next appended =>
              rw [happend] at h
              cases appended with
              | none => cases h
              | some e =>
                  obtain ⟨hstream, hnext⟩ := append_ok happend
                  rw [ih hnext h, hstream, Sink.given, hheld]
                  simp [appendedBy, JsonLines.bytesOf]

end EventLog

/-! ## What is read of them -/

section Resume

variable {json : JsonRecords Event} {events appended : List Event} {e : Event}
  {part rest : List UInt8}

/-- What was left of a line is the beginning of its text. -/
lemma part_prefix (hcut : utf8 (json.write e) ++ [lineFeed] = part ++ rest) (hrest : rest ≠ []) :
    part <+: utf8 (json.write e) := by
  obtain ⟨back, last, rfl⟩ := (List.eq_nil_or_concat' rest).resolve_left hrest
  rw [← List.append_assoc] at hcut
  exact ⟨back, (List.append_inj' hcut rfl).1.symm⟩

/-- What is left of a line alone: it is read when it lacks its line feed only. -/
lemma readLine_part (one : json.OneToALine) (hpart : part ≠ [])
    (hof : part <+: utf8 (json.write e)) {text : String} (htext : fromUtf8 part = some text) :
    SharedLog.readLine json.toJsonLines text = none ↔ part ≠ utf8 (json.write e) := by
  have hbytes := utf8_of_fromUtf8 htext
  constructor
  · rintro hnone rfl
    obtain rfl := utf8_injective hbytes
    rw [SharedLog.readLine, json.notBlank e, if_neg (by decide), json.read_write] at hnone
    cases hnone
  · intro hcut
    have hscrap : ∀ s ∈ [(⟨e, part⟩ : Scrap Event)], s.Of json.toJsonLines :=
      List.forall_mem_singleton.mpr ⟨hpart, hof⟩
    have hread := read_bytesOn one hscrap
    rw [alone, if_neg hcut, bytesOn, List.flatMap_singleton, ← hbytes, fromUtf8Lossy_utf8] at hread
    rw [SharedLog.readLine, hread]
    split <;> rfl

/-- What is appended after a part of a line shares its line, and is not read. -/
lemma readEvents_joined (one : json.OneToALine) (hpart : part ≠ [])
    (hof : part <+: utf8 (json.write e)) (a : Event) :
    readEvents json.toJsonLines
        (json.bytesOf events ++ part ++ json.bytesOf (a :: appended)) =
      (fromUtf8 (part ++ utf8 (json.write a))).map fun _ => events ++ appended := by
  have hwritten : ∀ x : Event, lineFeed ∉ utf8 (json.write x) ∧
      carriageReturn ∉ utf8 (json.write x) :=
    fun x => ⟨json.noLineFeed x, json.noCarriageReturn x⟩
  let lines : List (List UInt8) := (events.map json.write).map utf8 ++
    ((part ++ utf8 (json.write a)) :: (appended.map json.write).map utf8)
  have hshape : json.bytesOf events ++ part ++ json.bytesOf (a :: appended) =
      lines.flatMap fun l => l ++ [lineFeed] := by
    simp [lines, JsonLines.bytesOf, List.flatMap_map]
  have hlines : ∀ l ∈ lines, lineFeed ∉ l ∧ carriageReturn ∉ l := by
    intro l hl
    rcases List.mem_append.mp hl with hbefore | hl
    · obtain ⟨text, htext, rfl⟩ := List.mem_map.mp hbefore
      obtain ⟨x, -, rfl⟩ := List.mem_map.mp htext
      exact hwritten x
    rcases List.mem_cons.mp hl with rfl | hafter
    · simp only [List.mem_append, not_or]
      exact ⟨⟨fun hfeed => (hwritten e).1 (hof.subset hfeed), (hwritten a).1⟩,
        fun hreturn => (hwritten e).2 (hof.subset hreturn), (hwritten a).2⟩
    · obtain ⟨text, htext, rfl⟩ := List.mem_map.mp hafter
      obtain ⟨x, -, rfl⟩ := List.mem_map.mp htext
      exact hwritten x
  have hunread : ∀ text, fromUtf8 (part ++ utf8 (json.write a)) = some text →
      SharedLog.readLine json.toJsonLines text = none := by
    intro text htext
    have hscraps : ∀ s ∈ [(⟨e, part⟩ : Scrap Event), ⟨a, utf8 (json.write a)⟩],
        s.Of json.toJsonLines :=
      List.forall_mem_cons.mpr ⟨⟨hpart, hof⟩, List.forall_mem_singleton.mpr (Scrap.of_whole json a)⟩
    have hread := read_bytesOn one hscraps
    have hnone : alone json.toJsonLines [⟨e, part⟩, ⟨a, utf8 (json.write a)⟩] = none := rfl
    rw [hnone, bytesOn, List.flatMap_cons, List.flatMap_singleton, ← utf8_of_fromUtf8 htext,
      fromUtf8Lossy_utf8] at hread
    rw [SharedLog.readLine, hread]
    split <;> rfl
  rw [hshape, SharedLog.readEvents_lines hlines, List.mapM_append, SharedLog.mapM_fromUtf8,
    List.mapM_cons, SharedLog.mapM_fromUtf8]
  cases htext : fromUtf8 (part ++ utf8 (json.write a)) with
  | none => rfl
  | some text =>
      simp only [Option.pure_def, Option.bind_eq_bind, Option.bind_some, Option.map_some,
        List.filterMap_append, List.filterMap_cons, hunread text htext,
          SharedLog.filterMap_readLine]

/-- **When a log resumes cleanly after an append that was cut short.**  Any events are appended to a
log of complete lines and what was left of one more, each successfully.  The log is then read as the
events of the complete lines and those appended, in order, if and only if nothing was left of the
line that was cut; or nothing is appended, and what was left is text, and not a line that lacks its
line feed only. -/
theorem resumes_cleanly_iff (one : json.OneToALine)
    (hcut : utf8 (json.write e) ++ [lineFeed] = part ++ rest) (hrest : rest ≠ [])
    (answers : List SinkAnswer) (uses : List LogUse) (log : EventLog Sink)
    (hok : (EventLog.openAppend (some (json.bytesOf events ++ part)) answers).useAll
      json.toJsonLines uses = some log) :
    readEvents json.toJsonLines log.sink.stream = some (events ++ appendedBy uses) ↔
      part = [] ∨
        appendedBy uses = [] ∧ (fromUtf8 part).isSome ∧ part ≠ utf8 (json.write e) := by
  have hof := part_prefix hcut hrest
  rw [EventLog.useAll_stream rfl hok]
  dsimp only [EventLog.openAppend, Option.getD_some]
  by_cases hpart : part = []
  · have hclean : json.bytesOf events ++ part ++ json.bytesOf (appendedBy uses) =
        json.bytesOf (events ++ appendedBy uses) := by
      rw [hpart]
      simp [JsonLines.bytesOf]
    rw [hclean, SharedLog.readEvents_bytesOf]
    simp [hpart]
  cases happended : appendedBy uses with
  | nil =>
      have hfeed : lineFeed ∉ part := fun hmem => json.noLineFeed e (hof.subset hmem)
      rw [json.bytesOf_nil, List.append_nil, List.append_nil, readEvents_torn events hfeed]
      cases htext : fromUtf8 part with
      | none => simp [hpart]
      | some text =>
          have hread := readLine_part one hpart hof htext
          cases hline : SharedLog.readLine json.toJsonLines text with
          | none => simpa [hpart, hline] using hread
          | some read => simpa [hpart, hline] using hread
  | cons a appended =>
      rw [readEvents_joined one hpart hof]
      constructor
      · intro hread
        obtain ⟨-, -, hsame⟩ := Option.map_eq_some_iff.mp hread
        have hlength := congrArg List.length hsame
        simp at hlength
      · rintro (hempty | ⟨hnone, -⟩)
        · exact absurd hempty hpart
        · cases hnone

end Resume

/-! ## A daemon killed while it records a round's start

The job is requeued when the daemon starts again, and its round is launched and recorded. -/

def requestLine : Event :=
  ⟨1786752000000000000, .roundRequested "git@host:o/r" ⟨"main", "c0ffee"⟩ "fix it" "claude"⟩

/-- The event whose line is cut short. -/
def startLine : Event := ⟨1786752000000000000, .roundStarted 1⟩

/-- The same round's start, recorded again by the next daemon. -/
def restartLine : Event := ⟨1786752060000000000, .roundStarted 1⟩

/-- What is written of the first start. -/
def startFront : String := "\x7b\"at\":\"2026-08-15T00:00:00Z\",\"t\":\"round_sta"

/-- The three events as they are written. -/
def startLines : List (Event × String) :=
  [(requestLine,
      "\x7b\"at\":\"2026-08-15T00:00:00Z\",\"t\":\"round_requested\"," ++
        "\"remote_url\":\"git@host:o/r\"," ++
        "\"base\":\x7b\"name\":\"main\",\"sha\":\"c0ffee\"\x7d," ++
        "\"prompt\":\"fix it\",\"provider\":\"claude\"\x7d"),
    (startLine, startFront ++ "rted\",\"round\":1\x7d"),
    (restartLine, "\x7b\"at\":\"2026-08-15T00:01:00Z\",\"t\":\"round_started\",\"round\":1\x7d")]

lemma startLines_ok : JsonRecords.TableOk startLines := by
  simp only [JsonRecords.TableOk, startLines, startFront, List.forall_mem_cons,
    String.toList_append, List.not_mem_nil, false_implies, implies_true, and_true]
  decide +kernel

lemma startLines_plain : JsonRecords.PlainTable startLines := by decide +kernel

/-- A way of writing events that writes these three as they are written. -/
noncomputable def startJson : JsonRecords Event := .ofTable startLines startLines_ok

lemma startJson_oneToALine : startJson.OneToALine :=
  JsonRecords.oneToALine_ofTable startLines_ok startLines_plain

lemma startJson_write :
    utf8 (startJson.write startLine) ++ [lineFeed] =
      utf8 startFront ++ (utf8 "rted\",\"round\":1\x7d" ++ [lineFeed]) := by
  have hwritten : startJson.write startLine = startFront ++ "rted\",\"round\":1\x7d" := rfl
  rw [hwritten, utf8_append, List.append_assoc]

/-- What the next daemon appends. -/
def restartUses : List LogUse := [.append restartLine.stamp restartLine.kind]

/-- **The second start is lost**: it shares a line with what was left of the first, and the job
still looks queued while its round runs. -/
theorem append_after_torn_line : ∃ log,
    startJson.OneToALine ∧
      utf8 (startJson.write startLine) ++ [lineFeed] =
        utf8 startFront ++ (utf8 "rted\",\"round\":1\x7d" ++ [lineFeed]) ∧
      (EventLog.openAppend (some (startJson.bytesOf [requestLine] ++ utf8 startFront)) []).useAll
        startJson.toJsonLines restartUses = some log ∧
      readEvents startJson.toJsonLines log.sink.stream = some [requestLine] ∧
      readEvents startJson.toJsonLines log.sink.stream ≠
        some ([requestLine] ++ appendedBy restartUses) := by
  have hof : utf8 startFront <+: utf8 (startJson.write startLine) :=
    part_prefix startJson_write (by simp)
  obtain ⟨log, hlog⟩ : ∃ log, (EventLog.openAppend
      (some (startJson.bytesOf [requestLine] ++ utf8 startFront)) []).useAll startJson.toJsonLines
        restartUses = some log := ⟨_, rfl⟩
  have hdecoded : fromUtf8 (utf8 startFront ++ utf8 (startJson.write restartLine)) =
      some (startFront ++ startJson.write restartLine) := by
    rw [← utf8_append, fromUtf8_utf8]
  have hread : readEvents startJson.toJsonLines log.sink.stream = some [requestLine] := by
    rw [EventLog.useAll_stream rfl hlog]
    refine (readEvents_joined startJson_oneToALine (by decide) hof restartLine).trans ?_
    rw [hdecoded]
    rfl
  refine ⟨log, startJson_oneToALine, startJson_write, hlog, hread, ?_⟩
  rw [hread]
  decide

/-- The same append, when nothing was left of the first start. -/
theorem resumes_cleanly_iff_whole : ∃ log,
    (EventLog.openAppend (some (startJson.bytesOf [requestLine] ++ [])) []).useAll
        startJson.toJsonLines restartUses = some log ∧
      readEvents startJson.toJsonLines log.sink.stream = some [requestLine, restartLine] := by
  have hcut : utf8 (startJson.write startLine) ++ [lineFeed] =
      [] ++ (utf8 (startJson.write startLine) ++ [lineFeed]) := rfl
  obtain ⟨log, hlog⟩ : ∃ log, (EventLog.openAppend
      (some (startJson.bytesOf [requestLine] ++ [])) []).useAll startJson.toJsonLines
        restartUses = some log := ⟨_, rfl⟩
  exact ⟨log, hlog, (resumes_cleanly_iff startJson_oneToALine hcut (by simp) [] _ log hlog).mpr
    (Or.inl rfl)⟩

end AssemblyLine
