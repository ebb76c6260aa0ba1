import AssemblyLine.Framework.Scraps
import AssemblyLine.Log.EventLog
import AssemblyLine.Round.Frame

/-!
# Appending after an append that failed

An append that fails leaves the writer's number as it was, but not its sink: some of the frame's
line may have reached the stream, and all of it may.  The round goes on appending, on the same line
or under the same number.

`reaches_collector_iff` says which of the events appended since reach the collector all the same: an
event whose append found the line free and its number not taken.  After a failure either may be
otherwise (`event_joins_wreck` has a verdict that shares its line with half an output).
-/

namespace AssemblyLine

/-- The lines of a stream as a runner gives them to the collector. -/
def collectedLines (json : JsonLines Frame) (bytes : List UInt8) : List Line :=
  (segments lineFeed bytes).map fun line => Line.of json (fromUtf8Lossy line)

/-- The frames that stand on the lines of a stream that were ended. -/
def framesEnded (json : JsonLines Frame) (bytes : List UInt8) : List Frame :=
  (bytes.splitOn lineFeed).dropLast.filterMap fun line => json.read (fromUtf8Lossy line)

/-- What stands on the line that was not. -/
def openLine (bytes : List UInt8) : List UInt8 := (bytes.splitOn lineFeed).getLast?.getD []

namespace AppendCall

/-- Make the call, and say whether it returned `Ok`. -/
def attempt {W : Type} (json : JsonLines Frame) (dest : WriteTo W) (w : FrameWriter W) :
    AppendCall → FrameWriter W × Bool
  | .appendEvent now kind => w.appendEvent json dest now kind
  | .appendOutput line => w.appendOutput json dest line

end AppendCall

/-- The calls that returned `Ok`: the writer as each found it, and the body it appended. -/
def returnedOk (json : JsonLines Frame) :
    FrameWriter Sink → List AppendCall → List (FrameWriter Sink × FrameBody)
  | _, [] => []
  | w, call :: calls =>
    (if (call.attempt json Sink.failing w).2 then [(w, call.body)] else []) ++
      returnedOk json (call.attempt json Sink.failing w).1 calls

/-- What the writer has given its sink leaves room for an event: no frame has its number, and its
line is free; or the frame that took its number has the same event. -/
def RoomFor (json : JsonLines Frame) (w : FrameWriter Sink) (e : Event) : Prop :=
  match (framesEnded json w.sink.given).find? fun frame => frame.seq = w.lastSeq + 1 with
  | some frame => frame.body = .event e
  | none => openLine w.sink.given = []

/-! ## What one call leaves -/

section Calls

variable {json : JsonLines Frame} {w : FrameWriter Sink}

/-- An append does what a line does to the sink, and counts the frame when it succeeds. -/
lemma FrameWriter.append_of_line {W : Type} {dest : WriteTo W} {w : FrameWriter W}
    {body : FrameBody} {sink : W} {ok : Bool}
    (h : dest.line w.sink (utf8 (json.write ⟨w.lastSeq + 1, body⟩)) = (sink, ok)) :
    (w.append json dest body).1.sink = sink ∧ (w.append json dest body).2 = ok ∧
      (w.append json dest body).1.lastSeq = w.lastSeq + ok.toNat := by
  unfold WriteTo.line at h
  unfold append
  dsimp only
  cases hwrite : dest.writeAll w.sink (utf8 (json.write ⟨w.lastSeq + 1, body⟩)) with
  | mk s₁ ok₁ =>
      rw [hwrite] at h
      cases ok₁ with
      | false =>
          cases h
          exact ⟨rfl, rfl, rfl⟩
      | true =>
          dsimp only at h ⊢
          cases hfeed : dest.writeAll s₁ [lineFeed] with
          | mk s₂ ok₂ =>
              rw [hfeed] at h
              cases ok₂ with
              | false =>
                  cases h
                  exact ⟨rfl, rfl, rfl⟩
              | true =>
                  dsimp only at h ⊢
                  rw [h]
                  cases ok with
                  | false => exact ⟨rfl, rfl, rfl⟩
                  | true => cases body <;> exact ⟨rfl, rfl, rfl⟩

lemma AppendCall.perform_eq {W : Type} (dest : WriteTo W) (w : FrameWriter W) (call : AppendCall) :
    call.perform json dest w = (call.attempt json dest w).1 := by
  cases call <;> rfl

lemma AppendCall.attempt_eq {W : Type} (dest : WriteTo W) (w : FrameWriter W) (call : AppendCall) :
    call.attempt json dest w = w.append json dest call.body := by
  cases call <;> rfl

/-- What a call leaves: what reached the stream stays, what the sink was given goes on with the
frame's line, and the number and the stream move on when the call returned `Ok`. -/
lemma attempt_spec (json : JsonLines Frame) (w : FrameWriter Sink) (call : AppendCall) :
    let line := utf8 (json.write ⟨w.lastSeq + 1, call.body⟩) ++ [lineFeed]
    let after := (call.attempt json Sink.failing w).1
    w.sink.stream <+: after.sink.stream ∧ after.sink.given <+: w.sink.given ++ line ∧
      w.lastSeq ≤ after.lastSeq ∧
      ((call.attempt json Sink.failing w).2 = true → after.lastSeq = w.lastSeq + 1 ∧
        after.sink.stream = w.sink.given ++ line ∧ after.sink.held = []) := by
  dsimp only
  cases hline : Sink.failing.line w.sink (utf8 (json.write ⟨w.lastSeq + 1, call.body⟩)) with
  | mk sink ok =>
      obtain ⟨hsink, hok, hseq⟩ := FrameWriter.append_of_line hline
      obtain ⟨hstream, hgiven, hall⟩ := Sink.line_spec hline
      rw [call.attempt_eq, hsink, hok, hseq]
      refine ⟨hstream, hgiven, Nat.le_add_right _ _, fun hok => ⟨?_, hall hok⟩⟩
      rw [hok]
      rfl

end Calls

/-! ## What a run of calls leaves -/

section Laid

variable {json : JsonRecords Frame} {base bytes front : List UInt8} {seq last : ℕ}
  {s : Scraps Frame} {w : FrameWriter Sink}

/-- What was written after `base`, and after frame `seq`: scraps of later frames, in order. -/
structure Laid (json : JsonRecords Frame) (base : List UInt8) (seq last : ℕ) (bytes : List UInt8)
    (s : Scraps Frame) : Prop where
  wf : s.WellFormed json.toJsonLines
  bytes_eq : bytes = base ++ s.bytes
  sorted : (s.all.map Scrap.value).Pairwise fun f g => f.seq ≤ g.seq
  numbered : ∀ frame ∈ s.all.map Scrap.value, seq < frame.seq ∧ frame.seq ≤ last

lemma laid_nil (json : JsonRecords Frame) (base : List UInt8) (seq last : ℕ) :
    Laid json base seq last base ⟨[], []⟩ :=
  ⟨by simp [Scraps.WellFormed, Scraps.all], by simp [Scraps.bytes, bytesOn], by simp [Scraps.all],
    by simp [Scraps.all]⟩

/-- The beginning of what was written, `base` included, is such too. -/
lemma Laid.cut (laid : Laid json base seq last bytes s) (hbase : base <+: front)
    (hfront : front <+: bytes) : ∃ t, Laid json base seq last front t := by
  obtain ⟨more, rfl⟩ := hbase
  rw [laid.bytes_eq, List.prefix_append_right_inj] at hfront
  obtain ⟨t, wf, hbytes, hvalues⟩ := Scraps.cut laid.wf hfront
  exact ⟨t, wf, by rw [hbytes], laid.sorted.sublist hvalues.sublist,
    fun frame hframe => laid.numbered frame (hvalues.subset hframe)⟩

/-- What is numbered up to one number is numbered up to a later one. -/
lemma Laid.later (laid : Laid json base seq last bytes s) {last' : ℕ} (hlast : last ≤ last') :
    Laid json base seq last' bytes s :=
  { laid with numbered := fun frame hframe =>
      ⟨(laid.numbered frame hframe).1, (laid.numbered frame hframe).2.trans hlast⟩ }

/-- The scraps with the next frame's line. -/
def Scraps.withLine (json : JsonRecords Frame) (s : Scraps Frame) (frame : Frame) : Scraps Frame :=
  ⟨s.ended ++ [s.opened ++ [⟨frame, utf8 (json.write frame)⟩]], []⟩

/-- The next frame's line goes on after what was written. -/
lemma Laid.line (laid : Laid json base seq last bytes s) (frame : Frame) (hseq : seq < last)
    (hframe : frame.seq = last) :
    Laid json base seq last (bytes ++ (utf8 (json.write frame) ++ [lineFeed]))
      (s.withLine json frame) := by
  have hall : (s.withLine json frame).all = s.all ++ [⟨frame, utf8 (json.write frame)⟩] := by
    simp [Scraps.withLine, Scraps.all]
  have hvalues : (s.withLine json frame).all.map Scrap.value = s.all.map Scrap.value ++
      [frame] := by
    rw [hall, List.map_append]
    rfl
  refine ⟨?_, ?_, ?_, ?_⟩
  · intro scrap hscrap
    rw [hall] at hscrap
    rcases List.mem_append.mp hscrap with hscrap | hscrap
    · exact laid.wf scrap hscrap
    · rw [List.mem_singleton.mp hscrap]
      exact Scrap.of_whole json frame
  · rw [laid.bytes_eq]
    simp [Scraps.withLine, Scraps.bytes, bytesOn]
  · rw [hvalues, List.pairwise_append]
    refine ⟨laid.sorted, List.pairwise_singleton _ _, fun f hf g hg => ?_⟩
    rw [List.mem_singleton.mp hg, hframe]
    exact (laid.numbered f hf).2
  · intro f hf
    rw [hvalues] at hf
    rcases List.mem_append.mp hf with hf | hf
    · exact laid.numbered f hf
    · rw [List.mem_singleton.mp hf, hframe]
      exact ⟨hseq, le_refl _⟩

/-- What was written after a line that was ended goes on with what was written before. -/
lemma Laid.append {middle : List UInt8} {next : ℕ} {t : Scraps Frame}
    (laid : Laid json base seq last middle s) (hended : s.opened = [])
    (after : Laid json middle last next bytes t) (hseq : seq ≤ last) (hnext : last ≤ next) :
    Laid json base seq next bytes ⟨s.ended ++ t.ended, t.opened⟩ := by
  have hall : (⟨s.ended ++ t.ended, t.opened⟩ : Scraps Frame).all = s.all ++ t.all := by
    simp [Scraps.all, hended]
  refine ⟨?_, ?_, ?_, ?_⟩
  · intro scrap hscrap
    rw [hall] at hscrap
    exact (List.mem_append.mp hscrap).elim (laid.wf scrap) (after.wf scrap)
  · rw [after.bytes_eq, laid.bytes_eq]
    simp [Scraps.bytes, hended, bytesOn]
  · rw [hall, List.map_append, List.pairwise_append]
    refine ⟨laid.sorted, after.sorted, fun f hf g hg => ?_⟩
    exact (laid.numbered f hf).2.trans (after.numbered g hg).1.le
  · intro f hf
    rw [hall, List.map_append] at hf
    rcases List.mem_append.mp hf with hf | hf
    · exact ⟨(laid.numbered f hf).1, (laid.numbered f hf).2.trans hnext⟩
    · exact ⟨hseq.trans_lt (after.numbered f hf).1, (after.numbered f hf).2⟩

/-- A writer, and what it has written after `base`. -/
def Wrote (json : JsonRecords Frame) (base : List UInt8) (seq : ℕ) (w : FrameWriter Sink) : Prop :=
  base <+: w.sink.stream ∧ seq ≤ w.lastSeq ∧
    ∃ s, Laid json base seq (w.lastSeq + 1) w.sink.given s

/-- A writer that has appended nothing has nothing written. -/
lemma wrote_new (json : JsonRecords Frame) (answers : List SinkAnswer) :
    Wrote json [] 0 (.new ⟨[], [], answers⟩) :=
  ⟨List.nil_prefix, le_refl _, ⟨[], []⟩, laid_nil json _ _ _⟩

/-- **One call keeps it**, whatever the sink answers. -/
lemma Wrote.attempt (wrote : Wrote json base seq w) (call : AppendCall) :
    Wrote json base seq (call.attempt json.toJsonLines Sink.failing w).1 := by
  obtain ⟨hbase, hseq, s, laid⟩ := wrote
  obtain ⟨hstream, hgiven, hlast, -⟩ := attempt_spec json.toJsonLines w call
  have hkept := hbase.trans hstream
  have hline := laid.line ⟨w.lastSeq + 1, call.body⟩ (Nat.lt_succ_of_le hseq) rfl
  obtain ⟨t, hcut⟩ := hline.cut (hkept.trans (List.prefix_append _ _)) hgiven
  exact ⟨hkept, hseq.trans hlast, t, hcut.later (Nat.succ_le_succ hlast)⟩

lemma Wrote.run (wrote : Wrote json base seq w) (calls : List AppendCall) :
    Wrote json base seq (calls.foldl (AppendCall.perform json.toJsonLines Sink.failing) w) := by
  induction calls generalizing w with
  | nil => exact wrote
  | cons call calls ih =>
      rw [List.foldl_cons, AppendCall.perform_eq]
      exact ih (wrote.attempt call)

/-- What has reached the stream after `base`. -/
lemma Wrote.reached (wrote : Wrote json base seq w) :
    ∃ s, Laid json base seq (w.lastSeq + 1) w.sink.stream s := by
  obtain ⟨hbase, -, s, laid⟩ := wrote
  exact laid.cut hbase (List.prefix_append _ _)

end Laid

/-! ## What is routed of it -/

section Routing

variable {json : JsonRecords Frame}

/-- Of frames that come in order of their numbers, the first of a number is routed. -/
lemma mem_routeAll_iff {lines : List Line} {n : ℕ} {e : Event}
    (hsorted : (lines.filterMap Line.frame).Pairwise fun f g => f.seq ≤ g.seq) (p : ℕ) :
    Routed.event n e ∈ StreamPosition.routeAll ⟨p, 0⟩ lines ↔
      p < n ∧ (lines.filterMap Line.frame).find? (fun frame => frame.seq = n) =
        some ⟨n, .event e⟩ := by
  induction lines generalizing p with
  | nil => simp [StreamPosition.routeAll]
  | cons line lines ih =>
      cases hframe : line.frame with
      | none =>
          rw [List.filterMap_cons_none hframe] at hsorted ⊢
          have hroute : StreamPosition.route ⟨p, 0⟩ line = (⟨p, 0⟩, .output line.text) := by
            simp [StreamPosition.route, hframe]
          rw [StreamPosition.routeAll, hroute, List.mem_cons, ih hsorted]
          simp
      | some frame =>
          rw [List.filterMap_cons_some hframe] at hsorted ⊢
          obtain ⟨hleast, hrest⟩ := List.pairwise_cons.mp hsorted
          by_cases hold : frame.seq ≤ p
          · have hroute : StreamPosition.route ⟨p, 0⟩ line = (⟨p, 0⟩, .alreadyCollected) := by
              simp [StreamPosition.route, hframe, hold]
            rw [StreamPosition.routeAll, hroute, List.mem_cons, ih hrest]
            have hnot : p < n → ¬ frame.seq = n := by omega
            constructor
            · rintro (hevent | ⟨hn, hfind⟩)
              · cases hevent
              · exact ⟨hn, by rw [List.find?_cons_of_neg (by simpa using hnot hn), hfind]⟩
            · rintro ⟨hn, hfind⟩
              rw [List.find?_cons_of_neg (by simpa using hnot hn)] at hfind
              exact Or.inr ⟨hn, hfind⟩
          · have hroute : StreamPosition.route ⟨p, 0⟩ line = (⟨frame.seq, 0⟩, frame.routed) := by
              simp [StreamPosition.route, hframe, hold, Frame.routed]
            rw [StreamPosition.routeAll, hroute, List.mem_cons, ih hrest]
            by_cases hn : frame.seq = n
            · have hbody : Routed.event n e = frame.routed ↔ frame = ⟨n, .event e⟩ := by
                obtain ⟨seq, body⟩ := frame
                subst hn
                cases body <;> simp [Frame.routed, eq_comm]
              rw [List.find?_cons_of_pos (by simpa using hn), hbody, Option.some.injEq]
              constructor
              · rintro (hsame | ⟨hlt, -⟩)
                · exact ⟨by omega, hsame⟩
                · omega
              · exact fun h => Or.inl h.2
            · rw [List.find?_cons_of_neg (by simpa using hn)]
              constructor
              · rintro (hsame | ⟨hlt, hfind⟩)
                · rw [Frame.routed] at hsame
                  cases hb : frame.body with
                  | event e' =>
                      rw [hb] at hsame
                      cases hsame
                      exact absurd rfl hn
                  | output text =>
                      rw [hb] at hsame
                      cases hsame
                · exact ⟨by omega, hfind⟩
              · rintro ⟨-, hfind⟩
                have hmem : frame.seq ≤ n := hleast _ (List.mem_of_find?_eq_some hfind)
                exact Or.inr ⟨by omega, hfind⟩

/-- The frames a collector reads of what was written are those that stand alone on a line. -/
lemma frames_collectedLines (one : json.OneToALine) {s : Scraps Frame}
    (wf : s.WellFormed json.toJsonLines) :
    (collectedLines json.toJsonLines s.bytes).filterMap Line.frame =
      (s.ended ++ [s.opened]).filterMap (alone json.toJsonLines) := by
  rw [collectedLines, List.filterMap_map]
  exact Scraps.read_lines one wf

lemma framesEnded_bytes (one : json.OneToALine) {s : Scraps Frame}
    (wf : s.WellFormed json.toJsonLines) :
    framesEnded json.toJsonLines s.bytes = s.ended.filterMap (alone json.toJsonLines) := by
  rw [framesEnded, Scraps.splitOn_bytes wf, List.dropLast_concat, List.filterMap_map]
  exact List.filterMap_congr fun line hline =>
    read_bytesOn one (wf.line (List.mem_append_left _ hline))

lemma openLine_bytes {s : Scraps Frame} (wf : s.WellFormed json.toJsonLines) :
    openLine s.bytes = [] ↔ s.opened = [] := by
  rw [openLine, Scraps.splitOn_bytes wf, List.getLast?_concat, Option.getD_some]
  exact bytesOn_eq_nil (wf.line (by simp))

/-- They come in order of their numbers. -/
lemma Laid.frames_sorted (one : json.OneToALine) {bytes : List UInt8} {seq last : ℕ}
    {s : Scraps Frame} (laid : Laid json [] seq last bytes s) :
    ((collectedLines json.toJsonLines bytes).filterMap Line.frame).Pairwise
      fun f g => f.seq ≤ g.seq := by
  rw [laid.bytes_eq, List.nil_append, frames_collectedLines one laid.wf]
  refine List.Pairwise.sublist ?_ laid.sorted
  have hflatten : s.all = (s.ended ++ [s.opened]).flatten := by simp [Scraps.all]
  rw [hflatten]
  exact alone_sublist json.toJsonLines _

lemma filterMap_singleton {α β : Type} (f : α → Option β) (a : α) :
    [a].filterMap f = (f a).toList := by
  cases h : f a <;> simp [h]

/-- **Room decides.**  An event whose append returned `Ok` reaches the collector, whatever was
appended before and is appended after, if and only if there was room for it. -/
lemma routed_iff_roomFor (one : json.OneToALine) {w : FrameWriter Sink} (wrote : Wrote json [] 0 w)
    {call : AppendCall} {e : Event} (hok : (call.attempt json.toJsonLines Sink.failing w).2 = true)
    (hbody : call.body = .event e) (calls : List AppendCall) :
    Routed.event (w.lastSeq + 1) e ∈ StreamPosition.routeAll {} (collectedLines json.toJsonLines
        (calls.foldl (AppendCall.perform json.toJsonLines Sink.failing)
          (call.attempt json.toJsonLines Sink.failing w).1).sink.stream) ↔
      RoomFor json.toJsonLines w e := by
  obtain ⟨-, -, s, laid⟩ := wrote
  obtain ⟨-, -, -, hafter⟩ := attempt_spec json.toJsonLines w call
  obtain ⟨hlast, hstream, hheld⟩ := hafter hok
  rw [hbody] at hstream
  set after := (call.attempt json.toJsonLines Sink.failing w).1
  have hline := laid.line ⟨w.lastSeq + 1, .event e⟩ (Nat.succ_pos _) rfl
  rw [← hstream, ← hlast] at hline
  have hfresh : Wrote json after.sink.stream after.lastSeq after := by
    refine ⟨List.prefix_refl _, le_refl _, ⟨[], []⟩, ?_⟩
    rw [Sink.given, hheld, List.append_nil]
    exact laid_nil json _ _ _
  have hrun := hfresh.run calls
  set final := calls.foldl (AppendCall.perform json.toJsonLines Sink.failing) after
  obtain ⟨t, hlater⟩ := hrun.reached
  have hall := hline.append rfl hlater (Nat.zero_le _) (Nat.le_succ_of_le hrun.2.1)
  have hsorted := hall.frames_sorted one
  have hframes : (collectedLines json.toJsonLines final.sink.stream).filterMap Line.frame =
      framesEnded json.toJsonLines w.sink.given ++ ((alone json.toJsonLines (s.opened ++
        [⟨⟨w.lastSeq + 1, .event e⟩, utf8 (json.write ⟨w.lastSeq + 1, .event e⟩)⟩])).toList ++
          (t.ended ++ [t.opened]).filterMap (alone json.toJsonLines)) := by
    rw [hall.bytes_eq, List.nil_append, frames_collectedLines one hall.wf, laid.bytes_eq,
      List.nil_append, framesEnded_bytes one laid.wf, ← filterMap_singleton,
      ← List.filterMap_append, ← List.filterMap_append]
    simp only [Scraps.withLine, List.append_assoc, hlast]
  have hnone : ((t.ended ++ [t.opened]).filterMap (alone json.toJsonLines)).find?
      (fun frame => frame.seq = w.lastSeq + 1) = none := by
    rw [List.find?_eq_none]
    intro frame hframe
    have hmem := (alone_sublist json.toJsonLines _).subset hframe
    have hflatten : (t.ended ++ [t.opened]).flatten = t.all := by simp [Scraps.all]
    rw [hflatten] at hmem
    have hnumber := (hlater.numbered frame hmem).1
    simp only [decide_eq_true_eq]
    omega
  rw [mem_routeAll_iff hsorted, hframes, List.find?_append, List.find?_append, hnone,
    Option.or_none, RoomFor]
  cases hfind : (framesEnded json.toJsonLines w.sink.given).find?
      (fun frame => frame.seq = w.lastSeq + 1) with
  | some frame =>
      have hseq : frame.seq = w.lastSeq + 1 := by simpa using List.find?_some hfind
      obtain ⟨seq, body⟩ := frame
      subst hseq
      simp
  | none =>
      have hopen : openLine w.sink.given = [] ↔ s.opened = [] := by
        rw [laid.bytes_eq, List.nil_append]
        exact openLine_bytes laid.wf
      rw [Option.none_or]
      dsimp only
      rw [hopen]
      by_cases hopened : s.opened = []
      · simp [hopened, alone]
      · rw [alone_of_two _ _ hopened]
        simp [hopened]

/-- A call that returned `Ok` was made on what the calls before it had left. -/
lemma routed_of_mem_returnedOk (one : json.OneToALine) {w : FrameWriter Sink}
    (wrote : Wrote json [] 0 w) {calls : List AppendCall} {x : FrameWriter Sink × FrameBody}
    (hx : x ∈ returnedOk json.toJsonLines w calls) {e : Event} (hbody : x.2 = .event e) :
    Routed.event (x.1.lastSeq + 1) e ∈ StreamPosition.routeAll {} (collectedLines json.toJsonLines
        (calls.foldl (AppendCall.perform json.toJsonLines Sink.failing) w).sink.stream) ↔
      RoomFor json.toJsonLines x.1 e := by
  induction calls generalizing w with
  | nil => cases hx
  | cons call calls ih =>
      rw [List.foldl_cons, AppendCall.perform_eq]
      rw [returnedOk] at hx
      rcases List.mem_append.mp hx with hfirst | hlater
      · obtain ⟨hok, hmem⟩ := List.mem_ite_nil_right.mp hfirst
        obtain rfl := List.mem_singleton.mp hmem
        exact routed_iff_roomFor one wrote hok hbody calls
      · exact ih (wrote.attempt call) hlater

end Routing

/-- **When every event whose append succeeded reaches the collector.**  Any calls are made on one
writer, whatever its sink answers.  Every event whose `append_event` returned `Ok` is among what the
lines of the stream are routed to from the default position, under its own number, if and only if
each of those appends found room for its event in what the writer had given its sink. -/
theorem reaches_collector_iff (json : JsonRecords Frame) (one : json.OneToALine)
    (answers : List SinkAnswer) (calls : List AppendCall) :
    let writer := FrameWriter.new ⟨[], [], answers⟩
    let final := calls.foldl (AppendCall.perform json.toJsonLines Sink.failing) writer
    let routed := StreamPosition.routeAll {} (collectedLines json.toJsonLines final.sink.stream)
    (∀ x ∈ returnedOk json.toJsonLines writer calls, ∀ e, x.2 = .event e →
        Routed.event (x.1.lastSeq + 1) e ∈ routed) ↔
      ∀ x ∈ returnedOk json.toJsonLines writer calls, ∀ e, x.2 = .event e →
        RoomFor json.toJsonLines x.1 e := by
  intro writer final routed
  have wrote : Wrote json [] 0 writer := wrote_new json answers
  constructor
  · exact fun hreach x hx e hbody =>
      (routed_of_mem_returnedOk one wrote hx hbody).mp (hreach x hx e hbody)
  · exact fun hroom x hx e hbody =>
      (routed_of_mem_returnedOk one wrote hx hbody).mpr (hroom x hx e hbody)

/-! ## A verdict after an output that failed -/

/-- The round's verdict. -/
def passedEvent : Event := ⟨1786752000000000000, .roundPassed⟩

/-- A command's last line of output, and the verdict. -/
def lastCalls : List AppendCall :=
  [.appendOutput "building", .appendEvent passedEvent.stamp passedEvent.kind]

/-- The first frame of each, as it is written. -/
def lastFrames : List (Frame × String) :=
  [(⟨1, .output "building"⟩, "\x7b\"seq\":1,\"output\":\"building\"\x7d"),
    (⟨1, .event passedEvent⟩,
      "\x7b\"seq\":1,\"event\":\x7b\"at\":\"2026-08-15T00:00:00Z\",\"t\":\"round_passed\"\x7d\x7d")]

lemma lastFrames_ok : JsonRecords.TableOk lastFrames := by decide +kernel

lemma lastFrames_plain : JsonRecords.PlainTable lastFrames := by decide +kernel

/-- A way of writing frames that writes these two as they are written. -/
noncomputable def lastJson : JsonRecords Frame := .ofTable lastFrames lastFrames_ok

lemma lastJson_oneToALine : lastJson.OneToALine :=
  JsonRecords.oneToALine_ofTable lastFrames_ok lastFrames_plain

/-- A writer whose sink fails once, having handed on some of what it was given. -/
def failsOnce (handed : ℕ) : FrameWriter Sink := .new ⟨[], [], [⟨false, handed, 0⟩]⟩

/-- **The verdict is lost**: its append returns `Ok`, and its frame shares a line with the half of
the output's that was written. -/
theorem event_joins_wreck : lastJson.OneToALine ∧
    ∃ x ∈ returnedOk lastJson.toJsonLines (failsOnce 10) lastCalls, x.2 = .event passedEvent ∧
      Routed.event (x.1.lastSeq + 1) passedEvent ∉
        StreamPosition.routeAll {} (collectedLines lastJson.toJsonLines
          (lastCalls.foldl (AppendCall.perform lastJson.toJsonLines Sink.failing)
            (failsOnce 10)).sink.stream) := by
  let left : FrameWriter Sink := ((lastCalls.head (by decide)).attempt lastJson.toJsonLines
    Sink.failing (failsOnce 10)).1
  have hmem : (left, FrameBody.event passedEvent) ∈
      returnedOk lastJson.toJsonLines (failsOnce 10) lastCalls := List.mem_singleton.mpr rfl
  refine ⟨lastJson_oneToALine, _, hmem, rfl, fun hrouted => ?_⟩
  have hroom := (routed_of_mem_returnedOk lastJson_oneToALine (wrote_new _ _) hmem rfl).mp hrouted
  have hgiven : left.sink.given = utf8 "\x7b\"seq\":1,\"" := rfl
  have hsplit : left.sink.given.splitOn lineFeed = [left.sink.given] := by
    rw [hgiven]
    exact List.splitOn_eq_singleton (by decide)
  rw [RoomFor, framesEnded, openLine, hsplit] at hroom
  have hempty : left.sink.given = [] := hroom
  rw [hgiven] at hempty
  exact absurd hempty (by decide)

/-- The same calls, when the output that failed left nothing. -/
theorem reaches_collector_iff_nothing_left :
    Routed.event 1 passedEvent ∈
      StreamPosition.routeAll {} (collectedLines lastJson.toJsonLines
        (lastCalls.foldl (AppendCall.perform lastJson.toJsonLines Sink.failing)
          (failsOnce 0)).sink.stream) := by
  let left : FrameWriter Sink := ⟨⟨[], [], []⟩, 0, []⟩
  have hok : returnedOk lastJson.toJsonLines (failsOnce 0) lastCalls =
      [(left, .event passedEvent)] := rfl
  refine (reaches_collector_iff lastJson lastJson_oneToALine [⟨false, 0, 0⟩] lastCalls).mpr ?_
    (left, .event passedEvent) (List.mem_singleton.mpr rfl) passedEvent rfl
  intro x hx e hbody
  have hleft : x ∈ [(left, FrameBody.event passedEvent)] := hok ▸ hx
  rw [List.mem_singleton.mp hleft]
  exact show openLine [] = [] from rfl

end AssemblyLine
