import AssemblyLine.Framework.Machine
import AssemblyLine.Round.Frame

/-!
# The host's side of a round's stream

`Collection` is `collect` at work on one round: frames in, `events.jsonl` and the job's log out.
One `next` is one effect on the disk, so that a collection can be killed between any two: reading
a line and appending what it routes to is one, rewriting the position file after it another.

`Collecting` is a round whose stream is collected by one collection after another, each replaying
the stream from its start and each but the last killed at any point.
`collected_exactly_once` says what such a history leaves in the logs: every frame once, and once
more for each kill that fell between its routing and its bookmark; every other line at least
once, and once more at most for each kill before which no later frame was bookmarked.
-/

namespace AssemblyLine

/-! ## Collecting -/

/-- What collecting a round writes. -/
structure RoundDisk where
  /-- `events.jsonl`. -/
  events : List Event
  /-- `job.log`. -/
  output : List String
  /-- The round's position file, when there is one: the last seq routed into the logs. -/
  position : Option ℕ
deriving DecidableEq, Repr

namespace RoundDisk

/-- Append a routed line where it goes. -/
def receive (d : RoundDisk) : Routed → RoundDisk
  | .event _ e => { d with events := d.events ++ [e] }
  | .output text => { d with output := d.output ++ [text] }
  | .alreadyCollected => d

/-- Replace the position file. -/
def recordPosition (d : RoundDisk) (lastSeq : ℕ) : RoundDisk := { d with position := some lastSeq }

/-- The last seq an earlier collection of this round routed, or 0 for the first one. -/
def lastSeqRouted (d : RoundDisk) : ℕ := d.position.getD 0

end RoundDisk

/-- A collection of a round's stream, between two effects. -/
structure Collection where
  position : StreamPosition
  collected : List Event
  /-- What the stream has yet to yield. -/
  unread : List Line
  /-- A seq routed into the logs that the position file does not record yet. -/
  unrecorded : Option ℕ
  cancelling : Bool
deriving DecidableEq, Repr

namespace Collection

/-- A collection that has read nothing of its stream. -/
def start (d : RoundDisk) (stream : List Line) : Collection where
  position := .after d.lastSeqRouted
  collected := []
  unread := stream
  unrecorded := none
  cancelling := false

/-- The event of a routed line, if it is one. -/
def eventOf : Routed → Option Event
  | .event _ e => some e
  | _ => none

/-- One effect on the disk; `none` once the stream has ended. -/
def next (c : Collection) (d : RoundDisk) : Option (Collection × RoundDisk) :=
  match c.unrecorded with
  | some seq => some ({ c with unrecorded := none }, d.recordPosition seq)
  | none =>
    match c.unread with
    | [] => none
    | line :: rest =>
      let (position, routed) := c.position.route line
      some
        ({ c with
            position
            collected := c.collected ++ (eventOf routed).toList
            unread := rest
            unrecorded :=
              if position.lastSeq = c.position.lastSeq then none else some position.lastSeq },
          d.receive routed)

/-- Stop the round; it reads on until the stream ends. -/
def cancel (c : Collection) : Option Collection :=
  if c.cancelling then none else some { c with cancelling := true }

/-- What is appended once the stream has ended: the verdict, if the round reported none. -/
def settled (c : Collection) (endedBecause : String) : Option EventKind :=
  verdictMissingFrom c.collected endedBecause

end Collection

/-- What a round's events add up to: the last verdict in them. -/
def verdictOf (round : List Event) : Verdict :=
  (round.reverse.findSome? fun e => e.kind.verdict).getD .failed

/-! ## One collection after another -/

/-- A round's disk, and the collection at work on it. -/
structure Collecting where
  disk : RoundDisk
  running : Option Collection
deriving DecidableEq, Repr

inductive CollectAction
  | start
  | next
  | cancel
  | kill
deriving DecidableEq, Repr

/-- What an observer notes of a collection. -/
inductive CollectMark
  /-- The stream's line of this index was appended where it goes. -/
  | wrote (line : ℕ)
  /-- The collection was killed, with a seq routed and not recorded, if any, and this bookmark. -/
  | killed (unrecorded : Option ℕ) (bookmark : ℕ)
deriving DecidableEq, Repr

namespace Collecting

variable (stream : List Line)

def step (s : Collecting) : CollectAction → Option Collecting
  | .start => if s.running = none then some ⟨s.disk, some (.start s.disk stream)⟩ else none
  | .next => s.running.bind fun c => (c.next s.disk).map fun (c, d) => ⟨d, some c⟩
  | .cancel => s.running.bind fun c => c.cancel.map fun c => ⟨s.disk, some c⟩
  | .kill => s.running.map fun _ => ⟨s.disk, none⟩

/-- The index of the line a collection appends next, when its next effect appends one. -/
def writing (c : Collection) : Option ℕ :=
  match c.unrecorded, c.unread with
  | none, line :: rest =>
    if (c.position.route line).2 = .alreadyCollected then none
    else some (stream.length - (line :: rest).length)
  | _, _ => none

def shown (s : Collecting) : CollectAction → List CollectMark
  | .next => ((s.running.bind (writing stream)).map CollectMark.wrote).toList
  | .kill => (s.running.map fun c => .killed c.unrecorded s.disk.lastSeqRouted).toList
  | _ => []

/-- The stream has been read to its end, and the bookmark is up to date. -/
def Ended (s : Collecting) : Prop :=
  ∃ c, s.running = some c ∧ c.unread = [] ∧ c.unrecorded = none

end Collecting

/-! ## Numbered streams -/

/-- The event a line carries, if it is the frame of one. -/
def Line.event? (line : Line) : Option Event :=
  match line.frame with
  | some ⟨_, .event e⟩ => some e
  | _ => none

/-- What a line puts in the job's log, if it is not the frame of an event. -/
def Line.output? (line : Line) : Option String :=
  match line.frame with
  | none => some line.text
  | some ⟨_, .output text⟩ => some text
  | some ⟨_, .event _⟩ => none

/-- A round's stream numbers its frames 1, 2, 3, …; other lines may stand anywhere. -/
def Numbered (stream : List Line) : Prop :=
  (stream.filterMap Line.frame).map Frame.seq =
    List.range' 1 (stream.filterMap Line.frame).length

instance (stream : List Line) : Decidable (Numbered stream) :=
  inferInstanceAs (Decidable (_ = _))

section Streams

variable {stream : List Line} {i j : ℕ} {line : Line}

/-- How many frames stand before a stream's line of index `i`. -/
def framesBefore (stream : List Line) (i : ℕ) : ℕ :=
  ((stream.take i).filterMap Line.frame).length

@[simp] lemma framesBefore_zero : framesBefore stream 0 = 0 := rfl

lemma framesBefore_succ (h : stream[i]? = some line) :
    framesBefore stream (i + 1) = framesBefore stream i + line.frame.toList.length := by
  unfold framesBefore
  rw [List.take_add_one, h, List.filterMap_append, List.length_append]
  cases hframe : line.frame <;> simp [hframe]

lemma framesBefore_succ_le (h : stream[i]? = some line) :
    framesBefore stream (i + 1) ≤ framesBefore stream i + 1 := by
  rw [framesBefore_succ h]
  cases line.frame <;> simp

lemma framesBefore_mono (h : i ≤ j) : framesBefore stream i ≤ framesBefore stream j := by
  have hsub : (stream.take i).Sublist (stream.take j) := List.take_sublist_take_left h
  exact (hsub.filterMap _).length_le

lemma lt_of_framesBefore_lt (h : framesBefore stream i < framesBefore stream j) : i < j := by
  by_contra hle
  have hmono : framesBefore stream j ≤ framesBefore stream i :=
    framesBefore_mono (Nat.le_of_not_lt hle)
  omega

/-- A frame's number is one more than the frames before it. -/
lemma Numbered.seq_eq (hnumbered : Numbered stream) (h : stream[i]? = some line) {frame : Frame}
    (hframe : line.frame = some frame) : frame.seq = framesBefore stream i + 1 := by
  have hsplit : stream = stream.take i ++ line :: stream.drop (i + 1) := by
    obtain ⟨hi, rfl⟩ := List.getElem?_eq_some_iff.mp h
    rw [List.getElem_cons_drop, List.take_append_drop]
  have hframes : stream.filterMap Line.frame =
      (stream.take i).filterMap Line.frame ++
        frame :: (stream.drop (i + 1)).filterMap Line.frame := by
    conv_lhs => rw [hsplit]
    rw [List.filterMap_append, List.filterMap_cons_some hframe]
  have hat : ((stream.filterMap Line.frame).map Frame.seq)[framesBefore stream i]? =
      some frame.seq := by
    rw [hframes, List.map_append, framesBefore, List.getElem?_append_right (by simp)]
    simp
  rw [hnumbered, List.getElem?_range' (by rw [hframes]; simp [framesBefore])] at hat
  simp only [Option.some.injEq] at hat
  omega

/-- A stream of frames numbered from 1 is routed whole from a bookmark of 0. -/
lemma Numbered.routeAll_ne (hnumbered : Numbered stream) :
    ∀ routed ∈ (StreamPosition.after 0).routeAll stream, routed ≠ .alreadyCollected := by
  have hfrom : ∀ (lines : List Line) (seq : ℕ),
      (lines.filterMap Line.frame).map Frame.seq =
        List.range' (seq + 1) (lines.filterMap Line.frame).length →
      ∀ routed ∈ StreamPosition.routeAll ⟨seq, 0⟩ lines, routed ≠ .alreadyCollected := by
    intro lines
    induction lines with
    | nil =>
        intro seq _ routed hrouted
        cases hrouted
    | cons line lines ih =>
        intro seq hseqs routed hrouted
        rw [StreamPosition.routeAll, List.mem_cons] at hrouted
        cases hframe : line.frame with
        | none =>
            rw [List.filterMap_cons_none hframe] at hseqs
            have hroute : StreamPosition.route ⟨seq, 0⟩ line = (⟨seq, 0⟩, .output line.text) := by
              simp [StreamPosition.route, hframe]
            rw [hroute] at hrouted
            rcases hrouted with rfl | hrouted
            · simp
            · exact ih seq hseqs routed hrouted
        | some frame =>
            rw [List.filterMap_cons_some hframe, List.map_cons, List.length_cons,
              List.range'_succ, List.cons.injEq] at hseqs
            obtain ⟨hfirst, hrest⟩ := hseqs
            obtain ⟨number, body⟩ := frame
            obtain rfl : number = seq + 1 := hfirst
            have hroute : StreamPosition.route ⟨seq, 0⟩ line =
                (⟨seq + 1, 0⟩, Frame.routed ⟨seq + 1, body⟩) := by
              simp [StreamPosition.route, hframe, Frame.routed]
            rw [hroute] at hrouted
            rcases hrouted with rfl | hrouted
            · cases body <;> simp [Frame.routed]
            · exact ih (seq + 1) hrest routed hrouted
  exact hfrom stream 0 hnumbered

end Streams

/-! ## What one collection does

A collection that started from the bookmark `origin` and has read `read` lines has written those of
them with at least `origin` frames before them, and nothing else. -/

/-- A collection of `stream` that started from the bookmark `origin` and has read `read` lines. -/
structure Reading (stream : List Line) (c : Collection) (bookmark origin read : ℕ) : Prop where
  bound : read ≤ stream.length
  unread : c.unread = stream.drop read
  position : c.position = ⟨max origin (framesBefore stream read),
    if framesBefore stream read < origin then origin else 0⟩
  recorded : c.unrecorded = none → bookmark = max origin (framesBefore stream read)
  unrecorded : ∀ seq, c.unrecorded = some seq →
    seq = framesBefore stream read ∧ origin < seq ∧ bookmark + 1 = seq

/-- The three things a collection's next effect can be. -/
inductive Effect (stream : List Line) (c : Collection) (d : RoundDisk) (origin read : ℕ) :
    Collection → RoundDisk → Prop
  /-- A frame's number is recorded. -/
  | record {c' : Collection} {d' : RoundDisk} (seq : ℕ) (pending : c.unrecorded = some seq)
      (settled : c'.unrecorded = none) (disk : d' = d.recordPosition seq)
      (reading : Reading stream c' d'.lastSeqRouted origin read) :
        Effect stream c d origin read c' d'
  /-- A line an earlier collection already wrote is passed over. -/
  | skip {c' : Collection} (pending : c.unrecorded = none) (settled : c'.unrecorded = none)
      (before : framesBefore stream read < origin)
      (routed : Collecting.writing stream c = none)
      (reading : Reading stream c' d.lastSeqRouted origin (read + 1)) :
      Effect stream c d origin read c' d
  /-- A line is written. -/
  | write {c' : Collection} {d' : RoundDisk} (line : Line) (pending : c.unrecorded = none)
      (here : stream[read]? = some line)
      (past : origin ≤ framesBefore stream read)
      (routed : Collecting.writing stream c = some read)
      (events : d'.events = d.events ++ line.event?.toList)
      (output : d'.output = d.output ++ line.output?.toList)
      (bookmark : d'.lastSeqRouted = d.lastSeqRouted)
      (reading : Reading stream c' d.lastSeqRouted origin (read + 1)) :
      Effect stream c d origin read c' d'

section OneCollection

variable {stream : List Line} {c c' : Collection} {d d' : RoundDisk} {origin read : ℕ}

lemma Reading.start (d : RoundDisk) (stream : List Line) :
    Reading stream (.start d stream) d.lastSeqRouted d.lastSeqRouted 0 where
  bound := Nat.zero_le _
  unread := rfl
  position := by
    simp only [Collection.start, StreamPosition.after, framesBefore_zero]
    rcases Nat.eq_zero_or_pos d.lastSeqRouted with h | h
    · simp [h]
    · simp [h]
  recorded := by simp
  unrecorded := by simp [Collection.start]

/-- The position after a line is the position after one more line. -/
lemma Reading.route_position {line : Line}
    (reading : Reading stream c d.lastSeqRouted origin read) (hnumbered : Numbered stream)
    (hline : stream[read]? = some line) :
    (c.position.route line).1 = ⟨max origin (framesBefore stream (read + 1)),
      if framesBefore stream (read + 1) < origin then origin else 0⟩ := by
  have hsucc := framesBefore_succ hline
  rw [reading.position, StreamPosition.route]
  cases hframe : line.frame with
  | none =>
      have hsame : framesBefore stream (read + 1) = framesBefore stream read := by
        simpa [hframe] using hsucc
      rw [hsame]
      dsimp only
      split <;> split <;> rfl
  | some frame =>
      have hseq := hnumbered.seq_eq hline hframe
      rw [hframe, Option.toList_some, List.length_singleton] at hsucc
      rw [hsucc]
      dsimp only
      by_cases hbefore : framesBefore stream read < origin
      · -- Replayed: the replay is over when this is the frame it had yet to reach.
        rw [if_pos (by omega), if_pos hbefore, StreamPosition.mk.injEq]
        refine ⟨by omega, ?_⟩
        by_cases hreached : framesBefore stream read + 1 < origin
        · rw [if_neg (by omega), if_pos hreached]
        · rw [if_pos (by omega), if_neg hreached]
      · rw [if_neg (by omega), StreamPosition.mk.injEq]
        exact ⟨by omega, (if_neg (by omega)).symm⟩

/-- Before the bookmarked frame every line was collected already. -/
lemma Reading.route_before {line : Line}
    (reading : Reading stream c d.lastSeqRouted origin read) (hnumbered : Numbered stream)
    (hline : stream[read]? = some line) (hbefore : framesBefore stream read < origin) :
    (c.position.route line).2 = .alreadyCollected := by
  rw [reading.position, StreamPosition.route, if_pos hbefore]
  cases hframe : line.frame with
  | none => simp [Nat.zero_lt_of_lt hbefore]
  | some frame =>
      have hseq := hnumbered.seq_eq hline hframe
      dsimp only
      rw [if_pos (by omega)]

/-- From the bookmarked frame on every line goes where it belongs. -/
lemma Reading.route_past {line : Line}
    (reading : Reading stream c d.lastSeqRouted origin read) (hnumbered : Numbered stream)
    (hline : stream[read]? = some line) (hpast : origin ≤ framesBefore stream read) :
    (c.position.route line).2 ≠ .alreadyCollected ∧
      d.receive (c.position.route line).2 =
        { d with
          events := d.events ++ line.event?.toList
          output := d.output ++ line.output?.toList } := by
  rw [reading.position, StreamPosition.route, if_neg (Nat.not_lt.mpr hpast)]
  cases hframe : line.frame with
  | none => simp [RoundDisk.receive, Line.event?, Line.output?, hframe]
  | some frame =>
      have hseq := hnumbered.seq_eq hline hframe
      obtain ⟨seq, body⟩ := frame
      dsimp only at hseq ⊢
      rw [if_neg (by omega)]
      cases body <;> simp [RoundDisk.receive, Line.event?, Line.output?, hframe]

/-- What the next effect of a collection is. -/
theorem Reading.next_effect (reading : Reading stream c d.lastSeqRouted origin read)
    (hnumbered : Numbered stream) (h : c.next d = some (c', d')) :
    Effect stream c d origin read c' d' := by
  unfold Collection.next at h
  cases hpending : c.unrecorded with
  | some seq =>
      obtain ⟨hseq, horigin, hmark⟩ := reading.unrecorded seq hpending
      simp only [hpending, Option.some.injEq, Prod.mk.injEq] at h
      obtain ⟨rfl, rfl⟩ := h
      refine .record seq hpending rfl rfl ⟨reading.bound, reading.unread, reading.position, ?_, ?_⟩
      · intro _
        simp only [RoundDisk.recordPosition, RoundDisk.lastSeqRouted, Option.getD_some]
        omega
      · simp
  | none =>
      cases hunread : c.unread with
      | nil => simp [hpending, hunread] at h
      | cons line rest =>
          have hdrop : stream.drop read = line :: rest := by rw [← reading.unread, hunread]
          have hlen : stream.length - read = rest.length + 1 := by
            rw [← List.length_drop, hdrop, List.length_cons]
          have hline : stream[read]? = some line := by
            rw [← List.head?_drop, hdrop, List.head?_cons]
          have hrest : rest = stream.drop (read + 1) := by
            rw [← List.tail_drop, hdrop, List.tail_cons]
          have hmark := reading.recorded hpending
          have hmono : framesBefore stream read ≤ framesBefore stream (read + 1) :=
            framesBefore_mono (Nat.le_succ read)
          have hstep := framesBefore_succ_le hline
          have hposition := reading.route_position hnumbered hline
          have hlast : c.position.lastSeq = max origin (framesBefore stream read) := by
            rw [reading.position]
          simp only [hpending, hunread, Option.some.injEq, Prod.mk.injEq] at h
          obtain ⟨rfl, rfl⟩ := h
          by_cases hbefore : framesBefore stream read < origin
          · have hrouted := reading.route_before hnumbered hline hbefore
            have hsame : (c.position.route line).1.lastSeq = c.position.lastSeq := by
              rw [hposition, hlast]
              dsimp only
              omega
            rw [hrouted]
            refine .skip hpending (if_pos hsame) hbefore ?_ ⟨by omega, hrest, hposition, ?_, ?_⟩
            · rw [Collecting.writing, hpending, hunread]
              simp [hrouted]
            · intro _
              rw [hmark, ← hlast, ← hsame, hposition]
            · simp [hsame]
          · obtain ⟨hne, hreceive⟩ := reading.route_past hnumbered hline (Nat.not_lt.mp hbefore)
            refine .write line hpending hline (Nat.not_lt.mp hbefore) ?_ (by rw [hreceive])
              (by rw [hreceive]) (by rw [hreceive]; rfl)
              ⟨by omega, hrest, hposition, ?_, ?_⟩
            · rw [Collecting.writing, hpending, hunread]
              dsimp only
              rw [if_neg hne, List.length_cons, ← hlen]
              congr 1
              omega
            · intro hrecorded
              dsimp only at hrecorded
              split at hrecorded
              · rename_i hsame
                rw [hmark, ← hlast, ← hsame, hposition]
              · simp at hrecorded
            · intro seq hseq
              dsimp only at hseq
              split at hseq
              · simp at hseq
              · rename_i hchanged
                simp only [hposition, hlast, Option.some.injEq] at hseq hchanged
                omega

end OneCollection

/-! ## What a history of collections leaves -/

/-- The indices of the lines written, in the order they were. -/
def linesWritten (h : List CollectMark) : List ℕ :=
  h.filterMap fun mark => match mark with
    | .wrote line => some line
    | .killed _ _ => none

/-- How many kills fell between the routing of the frame numbered `seq` and its bookmark. -/
def killsUnrecorded (h : List CollectMark) (seq : ℕ) : ℕ :=
  h.countP fun mark => match mark with
    | .wrote _ => false
    | .killed unrecorded _ => unrecorded = some seq

/-- How many kills happened while the last frame bookmarked was among the first `frames`. -/
def killsBookmarkedWithin (h : List CollectMark) (frames : ℕ) : ℕ :=
  h.countP fun mark => match mark with
    | .wrote _ => false
    | .killed _ bookmark => bookmark ≤ frames

@[simp] lemma linesWritten_append (h k : List CollectMark) :
    linesWritten (h ++ k) = linesWritten h ++ linesWritten k := List.filterMap_append

@[simp] lemma killsUnrecorded_append (h k : List CollectMark) (seq : ℕ) :
    killsUnrecorded (h ++ k) seq = killsUnrecorded h seq + killsUnrecorded k seq :=
  List.countP_append

@[simp] lemma killsBookmarkedWithin_append (h k : List CollectMark) (frames : ℕ) :
    killsBookmarkedWithin (h ++ k) frames =
      killsBookmarkedWithin h frames + killsBookmarkedWithin k frames :=
  List.countP_append

/-- What a history has written, when the lines in `done` are those that will not be written again
before the next kill. -/
structure Tally (stream : List Line) (h : List CollectMark) (done : ℕ → Prop) : Prop where
  seen : ∀ i, done i → i < stream.length → i ∈ linesWritten h
  inOrder : ∀ before i after, linesWritten h = before ++ i :: after → ∀ j < i, j ∈ before
  frame : ∀ i line, stream[i]? = some line → line.frame.isSome →
    (done i → (linesWritten h).count i = killsUnrecorded h (framesBefore stream i + 1) + 1) ∧
      (¬ done i → (linesWritten h).count i = killsUnrecorded h (framesBefore stream i + 1))
  other : ∀ i line, stream[i]? = some line → line.frame = none →
    (done i → (linesWritten h).count i ≤ killsBookmarkedWithin h (framesBefore stream i) + 1) ∧
      (¬ done i → (linesWritten h).count i ≤ killsBookmarkedWithin h (framesBefore stream i))

namespace Tally

variable {stream : List Line} {h : List CollectMark} {done done' : ℕ → Prop}

lemma nil (hnone : ∀ i, ¬ done i) : Tally stream [] done where
  seen i hi := absurd hi (hnone i)
  inOrder := by simp [linesWritten]
  frame i _ _ _ := ⟨fun hi => absurd hi (hnone i), fun _ => rfl⟩
  other i _ _ _ := ⟨fun hi => absurd hi (hnone i), fun _ => Nat.le_refl 0⟩

lemma congr (tally : Tally stream h done) (hsame : ∀ i, i < stream.length → (done' i ↔ done i)) :
    Tally stream h done' := by
  have hbound : ∀ {i : ℕ} {line : Line}, stream[i]? = some line → i < stream.length :=
    fun hline => (List.getElem?_eq_some_iff.mp hline).1
  refine ⟨fun i hi hlt => tally.seen i ((hsame i hlt).mp hi) hlt, tally.inOrder, ?_, ?_⟩
  · intro i line hline hframe
    rw [hsame i (hbound hline)]
    exact tally.frame i line hline hframe
  · intro i line hline hframe
    rw [hsame i (hbound hline)]
    exact tally.other i line hline hframe

/-- A line is written for the first time since the last kill, after all before it. -/
lemma wrote (tally : Tally stream h done) {read : ℕ} (hread : ¬ done read)
    (hbefore : ∀ j < read, j ∈ linesWritten h) :
    Tally stream (h ++ [.wrote read]) fun i => done i ∨ i = read := by
  have hwritten : linesWritten (h ++ [.wrote read]) = linesWritten h ++ [read] := by
    simp [linesWritten]
  have hkills : ∀ seq, killsUnrecorded (h ++ [.wrote read]) seq = killsUnrecorded h seq := by
    simp [killsUnrecorded]
  have hmarks : ∀ frames,
      killsBookmarkedWithin (h ++ [.wrote read]) frames = killsBookmarkedWithin h frames := by
    simp [killsBookmarkedWithin]
  have hcount : ∀ i, (linesWritten h ++ [read]).count i =
      (linesWritten h).count i + if i = read then 1 else 0 := by
    intro i
    rw [List.count_append, List.count_singleton]
    by_cases hi : i = read
    · simp [hi]
    · simp [hi, Ne.symm hi]
  refine ⟨?_, ?_, ?_, ?_⟩
  · intro i hi hlt
    rw [hwritten, List.mem_append, List.mem_singleton]
    exact hi.imp (fun hdone => tally.seen i hdone hlt) id
  · intro before i after hsplit j hj
    rw [hwritten] at hsplit
    rcases List.eq_nil_or_concat after with rfl | ⟨after, last, rfl⟩
    · obtain ⟨rfl, hlast⟩ := List.append_inj' hsplit rfl
      obtain rfl : read = i := by simpa using hlast
      exact hbefore j hj
    · have hlonger : linesWritten h ++ [read] = (before ++ i :: after) ++ [last] := by
        simpa using hsplit
      exact tally.inOrder before i after (List.append_inj' hlonger rfl).1 j hj
  · intro i line hline hframe
    rw [hwritten, hkills, hcount]
    by_cases hi : i = read
    · subst hi
      have hsame := (tally.frame i line hline hframe).2 hread
      simp [hsame]
    · simpa [hi] using tally.frame i line hline hframe
  · intro i line hline hframe
    rw [hwritten, hmarks, hcount]
    by_cases hi : i = read
    · subst hi
      have hsame := (tally.other i line hline hframe).2 hread
      simpa using hsame
    · simpa [hi] using tally.other i line hline hframe

/-- A kill: the frame routed and not recorded will be written again, and so will every line after
the last bookmark. -/
lemma killed (tally : Tally stream h done) {unrecorded : Option ℕ} {bookmark : ℕ}
    (hdone : ∀ i, framesBefore stream i < bookmark → done i)
    (hframe : ∀ i line, stream[i]? = some line → line.frame.isSome →
      (done i ↔ framesBefore stream i < bookmark ∨ unrecorded = some (framesBefore stream i + 1)))
    (hpending : ∀ seq, unrecorded = some seq → bookmark < seq) :
    Tally stream (h ++ [.killed unrecorded bookmark]) fun i =>
      framesBefore stream i < bookmark := by
  have hwritten : linesWritten (h ++ [.killed unrecorded bookmark]) = linesWritten h := by
    simp [linesWritten]
  have hkills : ∀ seq, killsUnrecorded (h ++ [.killed unrecorded bookmark]) seq =
      killsUnrecorded h seq + if unrecorded = some seq then 1 else 0 := by
    intro seq
    rw [killsUnrecorded_append]
    simp [killsUnrecorded, List.countP_cons]
  have hmarks : ∀ frames, killsBookmarkedWithin (h ++ [.killed unrecorded bookmark]) frames =
      killsBookmarkedWithin h frames + if bookmark ≤ frames then 1 else 0 := by
    intro frames
    rw [killsBookmarkedWithin_append]
    simp [killsBookmarkedWithin, List.countP_cons]
  refine ⟨?_, by rw [hwritten]; exact tally.inOrder, ?_, ?_⟩
  · intro i hi hlt
    rw [hwritten]
    exact tally.seen i (hdone i hi) hlt
  · intro i line hline hisframe
    obtain ⟨hcounted, hmissing⟩ := tally.frame i line hline hisframe
    rw [hwritten, hkills]
    refine ⟨fun hi => ?_, fun hi => ?_⟩
    · have hrecorded : unrecorded ≠ some (framesBefore stream i + 1) := by
        intro hsome
        have hlate := hpending _ hsome
        omega
      rw [if_neg hrecorded, hcounted (hdone i hi), Nat.add_zero]
    · by_cases hsome : unrecorded = some (framesBefore stream i + 1)
      · rw [if_pos hsome]
        exact hcounted ((hframe i line hline hisframe).mpr (Or.inr hsome))
      · rw [if_neg hsome, Nat.add_zero]
        refine hmissing fun hdonei => ?_
        exact ((hframe i line hline hisframe).mp hdonei).elim hi hsome
  · intro i line hline hnone
    obtain ⟨hcounted, hmissing⟩ := tally.other i line hline hnone
    rw [hwritten, hmarks]
    refine ⟨fun hi => ?_, fun hi => ?_⟩
    · have hle := hcounted (hdone i hi)
      omega
    · rw [if_pos (Nat.not_lt.mp hi)]
      by_cases hdonei : done i
      · exact hcounted hdonei
      · have hle := hmissing hdonei
        omega

end Tally

/-! ## Across any number of kills -/

/-- The lines a disk and the collection at work on it are done with until the next kill. -/
inductive DoneBy (stream : List Line) (s : Collecting) : (ℕ → Prop) → Prop
  | idle (stopped : s.running = none) :
      DoneBy stream s fun i => framesBefore stream i < s.disk.lastSeqRouted
  | reading {c : Collection} {origin read : ℕ} (running : s.running = some c)
      (reading : Reading stream c s.disk.lastSeqRouted origin read) :
      DoneBy stream s fun i => framesBefore stream i < s.disk.lastSeqRouted ∨
        (origin ≤ framesBefore stream i ∧ i < read)

/-- What holds of a round's logs after any history of collections. -/
structure Kept (stream : List Line) (d : RoundDisk) (h : List CollectMark) (s : Collecting) :
    Prop where
  events : s.disk.events =
    d.events ++ (linesWritten h).filterMap fun i => stream[i]?.bind Line.event?
  output : s.disk.output =
    d.output ++ (linesWritten h).filterMap fun i => stream[i]?.bind Line.output?
  tally : ∃ done, DoneBy stream s done ∧ Tally stream h done

section Histories

variable {stream : List Line} {d : RoundDisk} {h : List CollectMark} {s t : Collecting}

/-- A collection is at most one frame past its bookmark. -/
lemma Reading.bookmark_le {c : Collection} {bookmark origin read : ℕ}
    (reading : Reading stream c bookmark origin read) :
    origin ≤ bookmark ∧ framesBefore stream read ≤ bookmark + 1 ∧
      (framesBefore stream read ≤ bookmark ∨ c.unrecorded = some (framesBefore stream read)) := by
  cases hpending : c.unrecorded with
  | none =>
      have hmark := reading.recorded hpending
      omega
  | some seq =>
      obtain ⟨rfl, horigin, hmark⟩ := reading.unrecorded seq hpending
      refine ⟨by omega, by omega, Or.inr rfl⟩

/-- Recording a frame's number changes nothing about which lines are done. -/
lemma Kept.record {c c' : Collection} {origin read seq : ℕ} (kept : Kept stream d h s)
    (tally : Tally stream h fun i => framesBefore stream i < s.disk.lastSeqRouted ∨
      (origin ≤ framesBefore stream i ∧ i < read))
    (reading : Reading stream c s.disk.lastSeqRouted origin read)
    (hpending : c.unrecorded = some seq)
    (hread : Reading stream c' (s.disk.recordPosition seq).lastSeqRouted origin read) :
    Kept stream d h ⟨s.disk.recordPosition seq, some c'⟩ := by
  obtain ⟨hseq, horigin, hmark⟩ := reading.unrecorded seq hpending
  refine ⟨kept.events, kept.output, _, .reading rfl hread, tally.congr fun i _ => ?_⟩
  have hlast : (s.disk.recordPosition seq).lastSeqRouted = seq := rfl
  simp only [hlast]
  constructor
  · rintro (hi | hi)
    · by_cases hrecorded : framesBefore stream i < s.disk.lastSeqRouted
      · exact Or.inl hrecorded
      · have hbelow : framesBefore stream i < framesBefore stream read := by omega
        exact Or.inr ⟨by omega, lt_of_framesBefore_lt hbelow⟩
    · exact Or.inr hi
  · rintro (hi | hi)
    · exact Or.inl (by omega)
    · exact Or.inr hi

/-- Writing a line adds it to the logs and to the lines that are done. -/
lemma Kept.write {c c' : Collection} {origin read : ℕ} {line : Line} {disk : RoundDisk}
    (kept : Kept stream d h s)
    (tally : Tally stream h fun i => framesBefore stream i < s.disk.lastSeqRouted ∨
      (origin ≤ framesBefore stream i ∧ i < read))
    (reading : Reading stream c s.disk.lastSeqRouted origin read)
    (hpending : c.unrecorded = none) (hhere : stream[read]? = some line)
    (hpast : origin ≤ framesBefore stream read)
    (hevents : disk.events = s.disk.events ++ line.event?.toList)
    (houtput : disk.output = s.disk.output ++ line.output?.toList)
    (hmark : disk.lastSeqRouted = s.disk.lastSeqRouted)
    (hread : Reading stream c' s.disk.lastSeqRouted origin (read + 1)) :
    Kept stream d (h ++ [.wrote read]) ⟨disk, some c'⟩ := by
  have hbookmark := reading.recorded hpending
  have hwritten : linesWritten (h ++ [.wrote read]) = linesWritten h ++ [read] := by
    simp [linesWritten]
  have hbound : read < stream.length := (List.getElem?_eq_some_iff.mp hhere).1
  have hbefore : ∀ j < read, j ∈ linesWritten h := by
    intro j hj
    refine tally.seen j ?_ (by omega)
    by_cases hold : framesBefore stream j < s.disk.lastSeqRouted
    · exact Or.inl hold
    · exact Or.inr ⟨by omega, hj⟩
  have hfresh : ¬ (framesBefore stream read < s.disk.lastSeqRouted ∨
      (origin ≤ framesBefore stream read ∧ read < read)) := by omega
  refine ⟨?_, ?_, _, .reading rfl (hmark ▸ hread),
    (tally.wrote hfresh hbefore).congr fun i _ => ?_⟩
  · rw [hwritten, List.filterMap_append, ← List.append_assoc, ← kept.events, hevents]
    cases hevent : line.event? <;> simp [hhere, hevent]
  · rw [hwritten, List.filterMap_append, ← List.append_assoc, ← kept.output, houtput]
    cases htext : line.output? <;> simp [hhere, htext]
  · simp only [hmark]
    constructor
    · rintro (hi | ⟨hi, hlt⟩)
      · exact Or.inl (Or.inl hi)
      · rcases Nat.lt_succ_iff_lt_or_eq.mp hlt with hlt | rfl
        · exact Or.inl (Or.inr ⟨hi, hlt⟩)
        · exact Or.inr rfl
    · rintro ((hi | ⟨hi, hlt⟩) | rfl)
      · exact Or.inl hi
      · exact Or.inr ⟨hi, by omega⟩
      · exact Or.inr ⟨hpast, by omega⟩

/-- A kill leaves the disk as it is. -/
lemma Kept.kill {c : Collection} {origin read : ℕ} (kept : Kept stream d h s)
    (tally : Tally stream h fun i => framesBefore stream i < s.disk.lastSeqRouted ∨
      (origin ≤ framesBefore stream i ∧ i < read))
    (reading : Reading stream c s.disk.lastSeqRouted origin read) :
    Kept stream d (h ++ [.killed c.unrecorded s.disk.lastSeqRouted]) ⟨s.disk, none⟩ := by
  have hwritten : linesWritten (h ++ [.killed c.unrecorded s.disk.lastSeqRouted]) =
      linesWritten h := by
    simp [linesWritten]
  obtain ⟨horigin, hle, hlast⟩ := reading.bookmark_le
  refine ⟨by rw [hwritten]; exact kept.events, by rw [hwritten]; exact kept.output, _, .idle rfl,
    tally.killed (fun i hi => Or.inl hi) ?_ ?_⟩
  · intro i line hline hframe
    have hsucc : framesBefore stream (i + 1) = framesBefore stream i + 1 := by
      obtain ⟨frame, hsome⟩ := Option.isSome_iff_exists.mp hframe
      rw [framesBefore_succ hline, hsome]
      rfl
    constructor
    · rintro (hi | ⟨hi, hlt⟩)
      · exact Or.inl hi
      · have hmono : framesBefore stream (i + 1) ≤ framesBefore stream read :=
          framesBefore_mono hlt
        rcases hlast with hrecorded | hpending
        · exact Or.inl (by omega)
        · by_cases hold : framesBefore stream i < s.disk.lastSeqRouted
          · exact Or.inl hold
          · refine Or.inr ?_
            rw [hpending]
            congr 1
            omega
    · rintro (hi | hpending)
      · exact Or.inl hi
      · obtain ⟨hseq, hpast, hmark⟩ := reading.unrecorded _ hpending
        have hbelow : framesBefore stream i < framesBefore stream read := by omega
        exact Or.inr ⟨by omega, lt_of_framesBefore_lt hbelow⟩
  · intro seq hpending
    have hmark := (reading.unrecorded seq hpending).2.2
    omega

/-- Everything a collection does keeps `Kept`. -/
lemma Kept.step (hnumbered : Numbered stream) {a : CollectAction} (kept : Kept stream d h s)
    (hstep : Collecting.step stream s a = some t) :
    Kept stream d (h ++ Collecting.shown stream s a) t := by
  obtain ⟨done, hdone, tally⟩ := kept.tally
  cases a with
  | start =>
      simp only [Collecting.step, Option.ite_none_right_eq_some, Option.some.injEq] at hstep
      obtain ⟨hidle, rfl⟩ := hstep
      cases hdone with
      | reading running _ => simp [hidle] at running
      | idle _ =>
          simp only [Collecting.shown, List.append_nil]
          exact ⟨kept.events, kept.output, _, .reading rfl (.start s.disk stream),
            tally.congr fun i _ => by simp⟩
  | next =>
      obtain ⟨c, hc, hnext⟩ := Option.bind_eq_some_iff.mp hstep
      obtain ⟨⟨c', disk⟩, heffect, rfl⟩ := Option.map_eq_some_iff.mp hnext
      cases hdone with
      | idle stopped => simp [hc] at stopped
      | @reading c₁ origin read running reading =>
          obtain rfl : c₁ = c := Option.some.inj (running.symm.trans hc)
          have hshown : Collecting.shown stream s .next =
              ((Collecting.writing stream c₁).map CollectMark.wrote).toList := by
            rw [Collecting.shown, hc, Option.bind_some]
          rw [hshown]
          cases reading.next_effect hnumbered heffect with
          | record seq hpending settled hdisk hread =>
              have hnone : Collecting.writing stream c₁ = none := by
                rw [Collecting.writing, hpending]
              rw [hnone, hdisk]
              simpa using kept.record tally reading hpending (hdisk ▸ hread)
          | skip hpending settled hbefore routed hread =>
              rw [routed]
              refine ⟨by simpa using kept.events, by simpa using kept.output, _,
                .reading rfl hread, ?_⟩
              simp only [Option.map_none, Option.toList_none, List.append_nil]
              refine tally.congr fun i _ => or_congr_right ⟨?_, ?_⟩
              · rintro ⟨hpast, hlt⟩
                have hne : i ≠ read := by
                  rintro rfl
                  omega
                exact ⟨hpast, by omega⟩
              · rintro ⟨hpast, hlt⟩
                exact ⟨hpast, by omega⟩
          | write line hpending hhere hpast routed hevents houtput hmark hread =>
              rw [routed]
              exact kept.write tally reading hpending hhere hpast hevents houtput hmark hread
  | cancel =>
      obtain ⟨c, hc, hmap⟩ := Option.bind_eq_some_iff.mp hstep
      obtain ⟨c', hcancel, rfl⟩ := Option.map_eq_some_iff.mp hmap
      simp only [Collection.cancel, Option.ite_none_left_eq_some, Option.some.injEq] at hcancel
      obtain ⟨-, rfl⟩ := hcancel
      cases hdone with
      | idle stopped => simp [hc] at stopped
      | @reading c₁ origin read running reading =>
          obtain rfl : c₁ = c := Option.some.inj (running.symm.trans hc)
          simp only [Collecting.shown, List.append_nil]
          -- Cancelling changes nothing about what has been read.
          have hread : Reading stream { c₁ with cancelling := true } s.disk.lastSeqRouted
              origin read :=
            ⟨reading.bound, reading.unread, reading.position, reading.recorded,
              reading.unrecorded⟩
          exact ⟨kept.events, kept.output, _, .reading rfl hread, tally⟩
  | kill =>
      obtain ⟨c, hc, rfl⟩ := Option.map_eq_some_iff.mp hstep
      cases hdone with
      | idle stopped => simp [hc] at stopped
      | reading running reading =>
          obtain rfl : _ = c := Option.some.inj (running.symm.trans hc)
          rw [Collecting.shown, hc]
          exact kept.kill tally reading

end Histories

section ExactlyOnce

variable {stream : List Line} {d : RoundDisk} {h : List CollectMark} {s : Collecting}

/-- Whatever the history, `Kept` holds at its end. -/
lemma kept_of_run (hnumbered : Numbered stream) (hfresh : d.position = none)
    (run : Run (Collecting.step stream) anyAction (Collecting.shown stream) ⟨d, none⟩ h s) :
    Kept stream d h s := by
  refine run.history_invariant (I := fun h s => Kept stream d h s)
    (fun _ _ _ _ kept _ hstep => kept.step hnumbered hstep) ?_
  refine ⟨by simp [linesWritten], by simp [linesWritten], _, .idle rfl, .nil fun i => ?_⟩
  simp [RoundDisk.lastSeqRouted, hfresh]

/-- A collection that has read the stream to its end is done with every line. -/
lemma DoneBy.of_ended {done : ℕ → Prop} (hdone : DoneBy stream s done) (hended : s.Ended) {i : ℕ}
    (hi : i < stream.length) : done i := by
  obtain ⟨c, hc, hunread, hrecorded⟩ := hended
  cases hdone with
  | idle stopped => simp [hc] at stopped
  | reading running reading =>
      obtain rfl : _ = c := Option.some.inj (running.symm.trans hc)
      have hmark := reading.recorded hrecorded
      have hall := reading.unread
      rw [hunread, eq_comm, List.drop_eq_nil_iff] at hall
      by_cases hold : framesBefore stream i < s.disk.lastSeqRouted
      · exact Or.inl hold
      · exact Or.inr ⟨by omega, by omega⟩

/-- Lines written in order first appear in order. -/
lemma Tally.idxOf_lt {done : ℕ → Prop} (tally : Tally stream h done) {i j : ℕ} (hij : i < j)
    (hj : j ∈ linesWritten h) : (linesWritten h).idxOf i < (linesWritten h).idxOf j := by
  obtain ⟨before, after, hsplit, hfirst⟩ := List.eq_append_cons_of_mem hj
  have hi : i ∈ before := tally.inOrder before j after hsplit i hij
  rw [hsplit, List.idxOf_append, if_pos hi, List.idxOf_append, if_neg hfirst]
  have hlt := List.idxOf_lt_length_of_mem hi
  omega

/-- **Resumed collection is exactly once.** -/
theorem collected_exactly_once (stream : List Line) (hnumbered : Numbered stream) (d : RoundDisk)
    (hfresh : d.position = none) (h : List CollectMark) (s : Collecting)
    (run : Run (Collecting.step stream) anyAction (Collecting.shown stream) ⟨d, none⟩ h s)
    (hended : s.Ended) :
    s.disk.events = d.events ++ (linesWritten h).filterMap (fun i => stream[i]?.bind Line.event?) ∧
    s.disk.output = d.output ++ (linesWritten h).filterMap (fun i => stream[i]?.bind Line.output?) ∧
    (∀ i j, i < j → j < stream.length →
      (linesWritten h).idxOf i < (linesWritten h).idxOf j) ∧
    ∀ i (line : Line), stream[i]? = some line →
      match line.frame with
      | some frame => (linesWritten h).count i = 1 + killsUnrecorded h frame.seq
      | none => 1 ≤ (linesWritten h).count i ∧
          (linesWritten h).count i ≤ 1 + killsBookmarkedWithin h (framesBefore stream i) := by
  have kept := kept_of_run hnumbered hfresh run
  obtain ⟨done, hdone, tally⟩ := kept.tally
  refine ⟨kept.events, kept.output, ?_, ?_⟩
  · intro i j hij hj
    exact tally.idxOf_lt hij (tally.seen j (hdone.of_ended hended hj) hj)
  · intro i line hline
    have hi : i < stream.length := (List.getElem?_eq_some_iff.mp hline).1
    have hdonei := hdone.of_ended hended hi
    cases hframe : line.frame with
    | none =>
        have hle := (tally.other i line hline hframe).1 hdonei
        have hmem := List.count_pos_iff.mpr (tally.seen i hdonei hi)
        exact ⟨by omega, by omega⟩
    | some frame =>
        have hcount := (tally.frame i line hline (by simp [hframe])).1 hdonei
        dsimp only
        rw [hcount, hnumbered.seq_eq hline hframe, Nat.add_comm]

/-- A stream with a line that is not a frame between two that are. -/
def interruptedStream : List Line :=
  [⟨"first", some ⟨1, .output "first"⟩⟩, ⟨"not a frame", none⟩,
    ⟨"second", some ⟨2, .event ⟨0, .roundPassed⟩⟩⟩]

/-- Killed between routing the second frame and recording it, then collected to the end. -/
def interruptedCollection : List CollectAction :=
  [.start, .next, .next, .next, .next, .kill, .start, .next, .next, .next, .next]

/-- The frame the kill fell on is written twice. -/
theorem collected_exactly_once_interrupted : ∃ s,
    exec (Collecting.step interruptedStream) ⟨⟨[], [], none⟩, none⟩ interruptedCollection = some s ∧
      (linesWritten (execShown (Collecting.step interruptedStream)
        (Collecting.shown interruptedStream) ⟨⟨[], [], none⟩, none⟩
        interruptedCollection)).count 2 = 2 := by
  refine ⟨_, rfl, ?_⟩
  have run : Run (Collecting.step interruptedStream) anyAction
      (Collecting.shown interruptedStream) ⟨⟨[], [], none⟩, none⟩ _ _ :=
    .of_exec (rfl : exec _ _ interruptedCollection = some _)
  have hlines := (collected_exactly_once interruptedStream (by decide) ⟨[], [], none⟩ rfl _ _
    run ⟨_, rfl, rfl, rfl⟩).2.2.2
  exact hlines 2 ⟨"second", some ⟨2, .event ⟨0, .roundPassed⟩⟩⟩ rfl

end ExactlyOnce

end AssemblyLine
