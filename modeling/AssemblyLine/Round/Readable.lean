import AssemblyLine.Round.Frame

/-!
# What a person reads of a round

`ReadableFrames` is a frame sink for a terminal: it writes the text of every output frame, one per
line, and nothing of the events.  It is written to in pieces that end anywhere, and keeps what it
has of a line until the rest of it comes.

`Shown` relates its text and what it keeps to everything it was given, and `readable_text` is what
follows for every way of splitting a stream into writes.
-/

namespace AssemblyLine

/-- A frame sink for a person at a terminal. -/
structure ReadableFrames where
  text : List UInt8
  /-- The source's `partial`: a line split across writes, waiting for the rest of it. -/
  unfinished : List UInt8
deriving DecidableEq, Repr

/-- What a line is to a person, by what it reads as. -/
def readableText (read : List UInt8 → Option Frame) (line : List UInt8) : List UInt8 :=
  match read line with
  | some ⟨_, .output text⟩ => utf8 text ++ [lineFeed]
  | some ⟨_, .event _⟩ => []
  | none => line ++ [lineFeed]

namespace ReadableFrames

def new : ReadableFrames := ⟨[], []⟩

section Writing

variable (read : List UInt8 → Option Frame)

def writeReadable (s : ReadableFrames) (line : List UInt8) : ReadableFrames :=
  { s with text := s.text ++ readableText read line }

/-- The loop of `write`: each complete line is written before the next is looked for. -/
def writeLines (s : ReadableFrames) : ReadableFrames :=
  match _h : s.unfinished.idxOf? lineFeed with
  | none => s
  | some stop =>
    writeLines (writeReadable read { s with unfinished := s.unfinished.drop (stop + 1) }
      ((s.unfinished.take (stop + 1)).take stop))
termination_by s.unfinished.length
decreasing_by
  obtain ⟨front, back, hsplit, -, -⟩ := idxOf?_eq_some_iff_append.mp _h
  have hpos : 0 < s.unfinished.length := by
    rw [hsplit, List.length_append, List.length_cons]
    omega
  simp only [writeReadable, List.length_drop]
  omega

/-- One `write`, which takes all it is given. -/
def write (s : ReadableFrames) (buf : List UInt8) : ReadableFrames :=
  writeLines read { s with unfinished := s.unfinished ++ buf }

/-- As a writer's sink: `write_all` is one `write`, unless there is nothing to write. -/
def sink : WriteTo ReadableFrames where
  writeAll s bytes := (if bytes = [] then s else write read s bytes, true)
  flush s := (s, true)

end Writing

/-! ## What is shown -/

/-- Of all it was given, the lines that have ended are shown, and the rest is kept. -/
def Shown (read : List UInt8 → Option Frame) (given : List UInt8) (s : ReadableFrames) :
    Prop :=
  lineFeed ∉ s.unfinished ∧
    ∃ lines : List (List UInt8), (∀ line ∈ lines, lineFeed ∉ line) ∧
      given = (lines.flatMap fun line => line ++ [lineFeed]) ++ s.unfinished ∧
      s.text = lines.flatMap (readableText read)

variable {read : List UInt8 → Option Frame} {s : ReadableFrames} {given : List UInt8}

/-- A line that has ended is taken from what is kept. -/
lemma writeLines_cons {line rest : List UInt8} (hline : lineFeed ∉ line)
    (hsplit : s.unfinished = line ++ lineFeed :: rest) :
    writeLines read s =
      writeLines read ⟨s.text ++ readableText read line, rest⟩ := by
  have hstop : s.unfinished.idxOf? lineFeed = some line.length :=
    idxOf?_eq_some_iff_append.mpr ⟨line, rest, hsplit, hline, rfl⟩
  have htaken : (s.unfinished.take (line.length + 1)).take line.length = line := by
    rw [List.take_take, Nat.min_eq_left (Nat.le_succ _), hsplit]
    exact List.take_left
  have hleft : s.unfinished.drop (line.length + 1) = rest := by
    rw [hsplit]
    simp
  rw [writeLines]
  split
  · rename_i hnone
    rw [hstop] at hnone
    cases hnone
  · rename_i stop hsome
    obtain rfl := Option.some.inj (hstop.symm.trans hsome)
    rw [htaken, hleft]
    rfl

/-- Without a line feed there is nothing to write. -/
lemma writeLines_of_notMem (hopen : lineFeed ∉ s.unfinished) : writeLines read s = s := by
  rw [writeLines]
  split
  · rfl
  · rename_i stop hsome
    obtain ⟨line, rest, hsplit, -, -⟩ := idxOf?_eq_some_iff_append.mp hsome
    exact absurd (by rw [hsplit]; simp) hopen

/-- The loop shows what has ended of what is kept, a line at a time. -/
lemma shown_writeLines {lines : List (List UInt8)} (hlines : ∀ line ∈ lines, lineFeed ∉ line)
    (hgiven : given = (lines.flatMap fun line => line ++ [lineFeed]) ++ s.unfinished)
    (htext : s.text = lines.flatMap (readableText read)) :
    Shown read given (writeLines read s) := by
  induction hlength : s.unfinished.length using Nat.strong_induction_on generalizing s lines with
  | _ length ih =>
      by_cases hopen : lineFeed ∈ s.unfinished
      · obtain ⟨line, rest, hsplit, hline⟩ := List.eq_append_cons_of_mem hopen
        rw [writeLines_cons hline hsplit]
        have hshorter : rest.length < length := by
          rw [← hlength, hsplit, List.length_append, List.length_cons]
          omega
        have hlines' : ∀ l ∈ lines ++ [line], lineFeed ∉ l := by
          intro l hl
          rcases List.mem_append.mp hl with hl | hl
          · exact hlines l hl
          · rwa [List.mem_singleton.mp hl]
        refine ih rest.length hshorter hlines' ?_ ?_ rfl
        · rw [hgiven, hsplit]
          simp
        · rw [htext, List.flatMap_append, List.flatMap_singleton]
      · rw [writeLines_of_notMem hopen]
        exact ⟨hopen, lines, hlines, hgiven, htext⟩

lemma shown_new (read : List UInt8 → Option Frame) : Shown read [] new :=
  ⟨List.not_mem_nil, [], by simp, rfl, rfl⟩

/-- **One write keeps it**, wherever it ends. -/
lemma Shown.write (shown : Shown read given s) (buf : List UInt8) :
    Shown read (given ++ buf) (s.write read buf) := by
  obtain ⟨-, lines, hlines, hgiven, htext⟩ := shown
  exact shown_writeLines hlines (by rw [hgiven, List.append_assoc]) htext

lemma Shown.writes (shown : Shown read given s) (chunks : List (List UInt8)) :
    Shown read (given ++ chunks.flatten) (chunks.foldl (ReadableFrames.write read) s) := by
  induction chunks generalizing given s with
  | nil => simpa using shown
  | cons chunk chunks ih =>
      rw [List.foldl_cons, List.flatten_cons, ← List.append_assoc]
      exact ih (shown.write chunk)

/-- What is shown of what was given: the lines in it that have ended. -/
lemma Shown.text_eq (shown : Shown read given s) :
    s.text = (given.splitOn lineFeed).dropLast.flatMap (readableText read) := by
  obtain ⟨hopen, lines, hlines, rfl, htext⟩ := shown
  rw [splitOn_lines hlines hopen, List.dropLast_concat, htext]

/-- What `write_all` is given is given, also when it is nothing. -/
lemma Shown.writeAll (shown : Shown read given s) (bytes : List UInt8) :
    Shown read (given ++ bytes) ((sink read).writeAll s bytes).1 := by
  by_cases hempty : bytes = []
  · simpa [sink, hempty] using shown
  · simpa [sink, hempty] using shown.write bytes

/-! ## A writer's frames -/

/-- `serde_json::from_slice`: what it makes of a text, and of bytes that are not one. -/
def fromSlice (json : JsonLines Frame) (other : List UInt8 → Option Frame) (line : List UInt8) :
    Option Frame :=
  match fromUtf8 line with
  | some text => json.read text
  | none => other line

/-- What a call is to a person. -/
def readableCall : AppendCall → List UInt8
  | .appendEvent _ _ => []
  | .appendOutput line => utf8 line ++ [lineFeed]

section Frames

variable {json : JsonLines Frame} {other : List UInt8 → Option Frame}
  {w : FrameWriter ReadableFrames}

lemma readableText_frame (call : AppendCall) (seq : ℕ) :
    readableText (fromSlice json other) (utf8 (json.write ⟨seq, call.body⟩)) =
      readableCall call := by
  rw [readableText, fromSlice, fromUtf8_utf8]
  dsimp only
  rw [json.read_write]
  cases call <;> rfl

/-- One call gives the sink its frame's line, and counts it. -/
lemma perform_sink (json : JsonLines Frame) (read : List UInt8 → Option Frame)
    (w : FrameWriter ReadableFrames) (call : AppendCall) :
    (call.perform json (sink read) w).sink =
        ((sink read).writeAll ((sink read).writeAll w.sink
          (utf8 (json.write ⟨w.lastSeq + 1, call.body⟩))).1 [lineFeed]).1 ∧
      (call.perform json (sink read) w).lastSeq = w.lastSeq + 1 := by
  cases call <;> exact ⟨rfl, rfl⟩

lemma Shown.performs (json : JsonLines Frame) (shown : Shown read given w.sink)
    (calls : List AppendCall) :
    Shown read (given ++ json.bytesOf (framesOf w.lastSeq calls))
      (calls.foldl (AppendCall.perform json (sink read)) w).sink := by
  induction calls generalizing w given with
  | nil => simpa [framesOf] using shown
  | cons call calls ih =>
      obtain ⟨hsink, hseq⟩ := perform_sink json read w call
      have hline := (shown.writeAll (utf8 (json.write ⟨w.lastSeq + 1, call.body⟩))).writeAll
        [lineFeed]
      rw [← hsink] at hline
      have hrest := ih hline
      rw [hseq] at hrest
      simpa [framesOf, JsonLines.bytesOf] using hrest

/-- The text of some frames' lines is what their calls are to a person. -/
lemma text_bytesOf (calls : List AppendCall) (seq : ℕ) :
    ((json.bytesOf (framesOf seq calls)).splitOn lineFeed).dropLast.flatMap
        (readableText (fromSlice json other)) = calls.flatMap readableCall := by
  have hlines : (json.bytesOf (framesOf seq calls)).splitOn lineFeed =
      ((framesOf seq calls).map fun frame => utf8 (json.write frame)) ++ [[]] := by
    have hshape : json.bytesOf (framesOf seq calls) =
        (((framesOf seq calls).map fun frame => utf8 (json.write frame)).flatMap
          fun line => line ++ [lineFeed]) ++ [] := by
      simp [JsonLines.bytesOf, List.flatMap_map]
    rw [hshape]
    refine splitOn_lines (fun line hline => ?_) List.not_mem_nil
    obtain ⟨frame, -, rfl⟩ := List.mem_map.mp hline
    exact json.noLineFeed frame
  rw [hlines, List.dropLast_concat]
  clear hlines
  induction calls generalizing seq with
  | nil => rfl
  | cons call calls ih =>
      rw [framesOf, List.map_cons, List.flatMap_cons, List.flatMap_cons, readableText_frame, ih]

end Frames

end ReadableFrames

/-- **What a person reads does not depend on how writes are split.**  However a stream is split
into writes, the text is that of its complete lines in order: an output frame's text and a line
feed, nothing for an event, and any other line as it is; what follows the last line feed is not
shown.  Of the frames some calls append, in whatever order, the outputs are shown. -/
theorem readable_text (json : JsonLines Frame) (other : List UInt8 → Option Frame) :
    (∀ (read : List UInt8 → Option Frame) (chunks : List (List UInt8)),
      (chunks.foldl (ReadableFrames.write read) .new).text =
        (chunks.flatten.splitOn lineFeed).dropLast.flatMap (readableText read)) ∧
    ∀ calls : List AppendCall,
      (calls.foldl
        (AppendCall.perform json (ReadableFrames.sink (ReadableFrames.fromSlice json other)))
        (FrameWriter.new .new)).sink.text = calls.flatMap ReadableFrames.readableCall := by
  refine ⟨fun read chunks => ?_, fun calls => ?_⟩
  · have shown := (ReadableFrames.shown_new read).writes chunks
    rw [List.nil_append] at shown
    exact shown.text_eq
  · have hnew : ReadableFrames.Shown (ReadableFrames.fromSlice json other) []
        (FrameWriter.new ReadableFrames.new).sink := ReadableFrames.shown_new _
    have shown := ReadableFrames.Shown.performs json hnew calls
    rw [List.nil_append] at shown
    rw [shown.text_eq]
    exact ReadableFrames.text_bytesOf calls 0

end AssemblyLine
