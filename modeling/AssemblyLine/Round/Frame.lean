import AssemblyLine.Framework.Lines
import AssemblyLine.Log.Event
import Mathlib.Data.List.Induction

/-!
# The wire format between a round and whoever collects it

A round's stdout is a sequence of `Frame`s, one to a line: one of the round's events, or one line
of what its commands printed.  `FrameWriter` is the round's side, a sink and a sequence number
shared by every clone of the writer; `StreamPosition.route` is the collector's side, which says
of one line what becomes of it.

The main result is `routed_appends`: what is appended on one writer, in whatever order its clones
append, is exactly what a collector reading the sink from its start routes.  Since the writer
wraps every output line in a frame of its own, blanking out what was printed does not change the
routed events (`events_framesOf_withoutText`): no string a command prints can become an event.
-/

namespace AssemblyLine

/-! ## Frames -/

inductive FrameBody
  | event (e : Event)
  /-- One line a command printed, on stdout or stderr. -/
  | output (text : String)
deriving DecidableEq, Repr

structure Frame where
  /-- Position in the round's stream, from 1. -/
  seq : ℕ
  body : FrameBody
deriving DecidableEq, Repr

deriving instance Countable for FrameBody
deriving instance Countable for Frame

/-! ## The writer -/

/-- What every clone of a writer shares, under one lock. -/
structure FrameWriter (W : Type) where
  sink : W
  lastSeq : ℕ
  events : List Event

namespace FrameWriter

variable {W : Type} (json : JsonLines Frame) (dest : WriteTo W)

def new (sink : W) : FrameWriter W := ⟨sink, 0, []⟩

/-- Append one frame, numbered one past the last; `false` when the sink failed.  A failure
leaves the number and the events as they were, but not the sink. -/
def append (w : FrameWriter W) (body : FrameBody) : FrameWriter W × Bool :=
  let frame : Frame := ⟨w.lastSeq + 1, body⟩
  match dest.writeAll w.sink (utf8 (json.write frame)) with
  | (sink, false) => ({ w with sink }, false)
  | (sink, true) =>
    match dest.writeAll sink [lineFeed] with
    | (sink, false) => ({ w with sink }, false)
    | (sink, true) =>
      match dest.flush sink with
      | (sink, false) => ({ w with sink }, false)
      | (sink, true) =>
        match frame.body with
        | .event event => (⟨sink, frame.seq, w.events ++ [event]⟩, true)
        | .output _ => (⟨sink, frame.seq, w.events⟩, true)

/-- Append one event, stamped `now`. -/
def appendEvent (w : FrameWriter W) (now : Instant) (kind : EventKind) : FrameWriter W × Bool :=
  w.append json dest (.event ⟨now, kind⟩)

/-- Append one line a command printed. -/
def appendOutput (w : FrameWriter W) (line : String) : FrameWriter W × Bool :=
  w.append json dest (.output line)

/-- Every event this writer has sent, in order. -/
def eventsSoFar (w : FrameWriter W) : List Event := w.events

end FrameWriter

/-- A call one of a writer's clones makes. -/
inductive AppendCall
  | appendEvent (now : Instant) (kind : EventKind)
  | appendOutput (line : String)
deriving DecidableEq, Repr

namespace AppendCall

/-- The frame body a call appends. -/
def body : AppendCall → FrameBody
  | .appendEvent now kind => .event ⟨now, kind⟩
  | .appendOutput line => .output line

/-- The call with what it printed left out. -/
def withoutText : AppendCall → AppendCall
  | .appendEvent now kind => .appendEvent now kind
  | .appendOutput _ => .appendOutput ""

/-- Make the call on the writer every clone shares. -/
def perform {W : Type} (json : JsonLines Frame) (dest : WriteTo W) (w : FrameWriter W) :
    AppendCall → FrameWriter W
  | .appendEvent now kind => (w.appendEvent json dest now kind).1
  | .appendOutput line => (w.appendOutput json dest line).1

end AppendCall

/-! ## Routing -/

/-- One line of a round's stream, with what `serde_json` makes of it. -/
structure Line where
  text : String
  frame : Option Frame
deriving DecidableEq, Repr

/-- The line with text `text`. -/
def Line.of (json : JsonLines Frame) (text : String) : Line := ⟨text, json.read text⟩

/-- The lines of a byte stream split at line feeds; `none` when one is not text. -/
def linesOf (json : JsonLines Frame) (bytes : List UInt8) : Option (List Line) :=
  ((segments lineFeed bytes).mapM fromUtf8).map fun texts => texts.map (Line.of json)

/-- What a collector does with one line of a round's stream. -/
inductive Routed
  /-- Append to `events.jsonl`, as the round recorded it. -/
  | event (seq : ℕ) (e : Event)
  /-- Append to the job's log. -/
  | output (text : String)
  /-- A frame at or before one already routed — a resumed stream replaying. -/
  | alreadyCollected
deriving DecidableEq, Repr

/-- How far into a round's stream a collector has got. -/
structure StreamPosition where
  lastSeq : ℕ := 0
  /-- For a collection resuming a stream that replays from its start: the frame the replay has
  yet to reach, 0 once it has.  Until then a line that is not a frame was collected before too. -/
  replayingTo : ℕ := 0
deriving DecidableEq, Repr

namespace StreamPosition

/-- A position past `lastSeq`, for a collection resuming a stream. -/
def after (lastSeq : ℕ) : StreamPosition := ⟨lastSeq, lastSeq⟩

/-- Where `line` goes, and where the stream stands after it. -/
def route (p : StreamPosition) (line : Line) : StreamPosition × Routed :=
  match line.frame with
  | none => if p.replayingTo > 0 then (p, .alreadyCollected) else (p, .output line.text)
  | some frame =>
    if frame.seq ≤ p.lastSeq then
      ({ p with replayingTo := if frame.seq ≥ p.replayingTo then 0 else p.replayingTo },
        .alreadyCollected)
    else
      (⟨frame.seq, 0⟩,
        match frame.body with
        | .event event => .event frame.seq event
        | .output text => .output text)

/-- Where each line of a stream goes. -/
def routeAll (p : StreamPosition) : List Line → List Routed
  | [] => []
  | line :: rest => (p.route line).2 :: (p.route line).1.routeAll rest

end StreamPosition

/-- The failure a collector records itself when a round's stream ended without saying how it
went; `none` when the round reported its own verdict. -/
def verdictMissingFrom (collected : List Event) (endedBecause : String) : Option EventKind :=
  let reported := collected.any fun e => e.kind.verdict.isSome
  if reported then none
  else some (.roundFailed s!"the round ended without reporting a verdict: {endedBecause}")

/-! ## What is appended is what is routed -/

section Appending

variable (json : JsonLines Frame)

/-- The frames some calls append, numbered from one past `seq`. -/
def framesOf (seq : ℕ) : List AppendCall → List Frame
  | [] => []
  | call :: calls => ⟨seq + 1, call.body⟩ :: framesOf (seq + 1) calls

/-- The events some calls append. -/
def eventsOf (calls : List AppendCall) : List Event :=
  calls.filterMap fun call => match call with
    | .appendEvent now kind => some ⟨now, kind⟩
    | .appendOutput _ => none

/-- Where a frame goes that was not collected before. -/
def Frame.routed (frame : Frame) : Routed :=
  match frame.body with
  | .event event => .event frame.seq event
  | .output text => .output text

/-- Where a call's line goes when it is the `seq`th of the stream. -/
def AppendCall.routedAs (seq : ℕ) : AppendCall → Routed
  | .appendEvent now kind => .event seq ⟨now, kind⟩
  | .appendOutput line => .output line

/-- The event a routed line puts in the job's log, with its number. -/
def Routed.event? : Routed → Option (ℕ × Event)
  | .event seq e => some (seq, e)
  | _ => none

/-- One call writes one line, takes one number and keeps its event. -/
lemma perform_vecSink (w : FrameWriter (List UInt8)) (call : AppendCall) :
    call.perform json vecSink w =
      ⟨w.sink ++ (utf8 (json.write ⟨w.lastSeq + 1, call.body⟩) ++ [lineFeed]),
        w.lastSeq + 1, w.events ++ eventsOf [call]⟩ := by
  cases call <;>
    simp [AppendCall.perform, AppendCall.body, FrameWriter.appendEvent,
      FrameWriter.appendOutput, FrameWriter.append, vecSink, eventsOf]

/-- A run of calls writes their frames one to a line. -/
lemma foldl_perform_vecSink (calls : List AppendCall) (w : FrameWriter (List UInt8)) :
    calls.foldl (AppendCall.perform json vecSink) w =
      ⟨w.sink ++ json.bytesOf (framesOf w.lastSeq calls),
        w.lastSeq + calls.length, w.events ++ eventsOf calls⟩ := by
  induction calls generalizing w with
  | nil => simp [framesOf, eventsOf]
  | cons call calls ih =>
      rw [List.foldl_cons, ih, perform_vecSink]
      have hevents : eventsOf (call :: calls) = eventsOf [call] ++ eventsOf calls := by
        rw [eventsOf, eventsOf, eventsOf, ← List.filterMap_append, List.singleton_append]
      simp [framesOf, JsonLines.bytesOf, hevents, Nat.add_assoc, Nat.add_comm 1]

/-- Frames written one to a line are read back as those frames. -/
lemma linesOf_bytesOf (frames : List Frame) :
    linesOf json (json.bytesOf frames) =
      some (frames.map fun frame => ⟨json.write frame, some frame⟩) := by
  have htexts : ((segments lineFeed (json.bytesOf frames)).mapM fromUtf8) =
      some (frames.map json.write) := by
    rw [json.segments_bytesOf]
    induction frames with
    | nil => rfl
    | cons frame frames ih => simp_all
  simp [linesOf, htexts, Line.of, json.read_write, Function.comp_def]

/-- Frames numbered past the position are all routed, each where its body goes. -/
lemma routeAll_framesOf (calls : List AppendCall) (seq : ℕ) :
    StreamPosition.routeAll ⟨seq, 0⟩
        ((framesOf seq calls).map fun frame => ⟨json.write frame, some frame⟩) =
      (framesOf seq calls).map Frame.routed := by
  induction calls generalizing seq with
  | nil => rfl
  | cons call calls ih =>
      have hroute : StreamPosition.route ⟨seq, 0⟩
          ⟨json.write ⟨seq + 1, call.body⟩, some ⟨seq + 1, call.body⟩⟩ =
            (⟨seq + 1, 0⟩, Frame.routed ⟨seq + 1, call.body⟩) := by
        simp [StreamPosition.route, Frame.routed]
      simp only [framesOf, List.map_cons, StreamPosition.routeAll, hroute, ih]

/-- The events among routed frames, with their numbers, do not depend on any printed text. -/
lemma events_framesOf_withoutText (calls : List AppendCall) (seq : ℕ) :
    ((framesOf seq calls).map Frame.routed).filterMap Routed.event? =
      ((framesOf seq (calls.map AppendCall.withoutText)).map Frame.routed).filterMap
        Routed.event? := by
  induction calls generalizing seq with
  | nil => rfl
  | cons call calls ih =>
      cases call <;>
        simpa [framesOf, AppendCall.withoutText, AppendCall.body, Frame.routed,
          Routed.event?, List.filterMap_cons] using ih (seq + 1)

/-- The events among routed frames are the appended events. -/
lemma events_framesOf (calls : List AppendCall) (seq : ℕ) :
    (((framesOf seq calls).map Frame.routed).filterMap Routed.event?).map Prod.snd =
      eventsOf calls := by
  induction calls generalizing seq with
  | nil => rfl
  | cons call calls ih =>
      cases call <;>
        simpa [framesOf, AppendCall.body, Frame.routed, Routed.event?, eventsOf,
          List.filterMap_cons] using ih (seq + 1)

/-- A call's place in the stream is its frame's number. -/
lemma getElem?_framesOf (calls : List AppendCall) (seq i : ℕ) :
    (framesOf seq calls)[i]? = calls[i]?.map fun call => ⟨seq + i + 1, call.body⟩ := by
  induction calls generalizing seq i with
  | nil => simp [framesOf]
  | cons call calls ih =>
      cases i with
      | zero => simp [framesOf]
      | succ i => simp [framesOf, ih, Nat.add_assoc, Nat.add_comm 1]

lemma map_routed_framesOf (calls : List AppendCall) :
    (framesOf 0 calls).map Frame.routed =
      calls.mapIdx fun i call => call.routedAs (i + 1) := by
  apply List.ext_getElem?
  intro i
  rw [List.getElem?_map, getElem?_framesOf, List.getElem?_mapIdx, Option.map_map]
  congr 1
  funext call
  cases call <;> simp [AppendCall.body, AppendCall.routedAs, Frame.routed]

end Appending

/-- **What is appended is what is routed.**  Splitting the sink at line feeds and routing the
lines from the default position gives one routing per call, in order: an output as the same text,
an event as that event, numbered by its place in the stream.  The routed events with their
numbers are those of the same calls with every printed text blanked out, and the events are
`eventsSoFar`. -/
theorem routed_appends (json : JsonLines Frame) (calls : List AppendCall) :
    let writer := calls.foldl (AppendCall.perform json vecSink) (FrameWriter.new [])
    ∃ lines, linesOf json writer.sink = some lines ∧
      let routed := StreamPosition.routeAll {} lines
      routed = calls.mapIdx (fun i call => call.routedAs (i + 1)) ∧
      routed.filterMap Routed.event? =
        ((calls.map AppendCall.withoutText).mapIdx
          fun i call => call.routedAs (i + 1)).filterMap Routed.event? ∧
      (routed.filterMap Routed.event?).map Prod.snd = writer.eventsSoFar := by
  intro writer
  have hwriter : writer = ⟨json.bytesOf (framesOf 0 calls), calls.length, eventsOf calls⟩ := by
    have h := foldl_perform_vecSink json calls (FrameWriter.new [])
    simpa only [writer, FrameWriter.new, List.nil_append, Nat.zero_add] using h
  refine ⟨_, by rw [hwriter]; exact linesOf_bytesOf json _, ?_⟩
  intro routed
  have hrouted : routed = (framesOf 0 calls).map Frame.routed := routeAll_framesOf json calls 0
  refine ⟨?_, ?_, ?_⟩
  · rw [hrouted, map_routed_framesOf]
  · rw [hrouted, events_framesOf_withoutText, map_routed_framesOf]
  · rw [hrouted, events_framesOf, hwriter]
    rfl

end AssemblyLine
