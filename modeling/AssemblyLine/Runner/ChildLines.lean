import AssemblyLine.Framework.Pipes
import AssemblyLine.Framework.Settling
import AssemblyLine.Runner.MergedLines

/-!
# A child's stdout and stderr, as one stream of lines

`ChildLines` reads a child's two pipes with a task each, which send the lines they find down one
bounded channel; `next_line` receives from it, and ends once both tasks have.

`Merging` is what holds of the lines received, whatever the interleaving of the child, the tasks and
the receiver: of each pipe they are the beginning of its lines, in its order
(`received_begin_each_pipe`).  A full channel holds no line back for ever (`child_lines_end`).  So
what a collection of a docker round reads is a `MergedReading` of what the round printed
(`received_is_mergedReading`).
-/

namespace AssemblyLine

/-- How many lines the channel holds. -/
def channelCapacity : ℕ := 256

structure ChildLines where
  /-- What the child has written to each pipe; nothing reads it. -/
  written : Pipe → List UInt8
  /-- Nobody holds the pipe's other end. -/
  closed : Pipe → Bool
  readers : Pipe → PipeReader
  channel : List (Pipe × String)
  /-- `next_line` has returned `None`. -/
  atEnd : Bool

inductive ChildLinesAct
  | write (pipe : Pipe) (chunk : List UInt8)
  | close (pipe : Pipe)
  /-- A step of a pipe's task; it stops when a read fails. -/
  | forward (pipe : Pipe) (act : PipeReader.Act)
  | nextLine
deriving DecidableEq, Repr

namespace ChildLines

def spawned : ChildLines := ⟨fun _ => [], fun _ => false, fun _ => .opened, [], false⟩

/-- A task's step, where a line that is handed on is sent down the channel. -/
def forwardLines (s : ChildLines) (pipe : Pipe) (act : PipeReader.Act) : Option ChildLines :=
  if act = .handOn ∧ channelCapacity ≤ s.channel.length then none
  else
    ((s.readers pipe).step (s.closed pipe) act).map fun (r, line) =>
      { s with
        readers := Function.update s.readers pipe r
        channel := s.channel ++ (line.map fun line => (pipe, fromUtf8Lossy line)).toList }

/-- One step, and what `next_line` returns in it. -/
def next (s : ChildLines) : ChildLinesAct → Option (ChildLines × List (Option (Pipe × String)))
  | .write pipe chunk =>
    if s.closed pipe then none
    else
      some ({ s with
        written := Function.update s.written pipe (s.written pipe ++ chunk)
        readers := Function.update s.readers pipe ((s.readers pipe).write chunk) }, [])
  | .close pipe => some ({ s with closed := Function.update s.closed pipe true }, [])
  | .forward pipe act => (s.forwardLines pipe act).map fun s => (s, [])
  | .nextLine =>
    if s.atEnd then none
    else
      match s.channel with
      | line :: rest => some ({ s with channel := rest }, [some line])
      | [] =>
        if (s.readers .stdout).standing = .reading ∨ (s.readers .stderr).standing = .reading then
          none
        else some ({ s with atEnd := true }, [none])

def step (s : ChildLines) (act : ChildLinesAct) : Option ChildLines := (s.next act).map Prod.fst

/-- What `next_line` returns. -/
def returns (s : ChildLines) (act : ChildLinesAct) : List (Option (Pipe × String)) :=
  ((s.next act).map Prod.snd).getD []

/-! ## What has been received -/

/-- The texts of one pipe among those of both. -/
def textsOn (pipe : Pipe) (lines : List (Pipe × String)) : List String :=
  (lines.filter fun line => line.1 = pipe).map Prod.snd

lemma textsOn_append (pipe : Pipe) (lines lines' : List (Pipe × String)) :
    textsOn pipe (lines ++ lines') = textsOn pipe lines ++ textsOn pipe lines' := by
  rw [textsOn, List.filter_append, List.map_append]
  rfl

/-- What was received, and is in the channel, is what the tasks have handed on. -/
structure Merging (received : List (Pipe × String)) (s : ChildLines) : Prop where
  pipes : ∀ pipe, ∃ handed, HandedOn (s.closed pipe) (s.written pipe) handed (s.readers pipe) ∧
    textsOn pipe (received ++ s.channel) = handed.map fromUtf8Lossy
  atEnd : s.atEnd = true → s.channel = [] ∧ ∀ pipe, (s.readers pipe).standing ≠ .reading

/-- What `next_line` has returned: some lines, and then that there are none. -/
def Received (h : List (Option (Pipe × String))) (s : ChildLines) : Prop :=
  ∃ received, h = received.map some ++ (if s.atEnd then [none] else []) ∧ Merging received s

variable {h : List (Option (Pipe × String))} {received : List (Pipe × String)} {s t : ChildLines}
  {pipe : Pipe}

lemma received_spawned : Received [] spawned :=
  ⟨[], rfl, fun _ => ⟨[], HandedOn.opened _, rfl⟩, fun h => nomatch h⟩

/-- A task's step hands on to the channel. -/
lemma Merging.forward (inv : Merging received s) {act : PipeReader.Act}
    (hstep : s.forwardLines pipe act = some t) : Merging received t ∧ t.atEnd = s.atEnd := by
  simp only [forwardLines, Option.ite_none_left_eq_some, Option.map_eq_some_iff] at hstep
  obtain ⟨-, ⟨r, line⟩, hreader, rfl⟩ := hstep
  have hreading : (s.readers pipe).standing = .reading := by
    by_contra hstopped
    cases act <;> simp [PipeReader.step, hstopped] at hreader
  refine ⟨⟨?_, ?_⟩, rfl⟩
  · intro pipe'
    obtain ⟨handed, hhanded, htexts⟩ := inv.pipes pipe'
    by_cases hpipe : pipe' = pipe
    · subst hpipe
      refine ⟨handed ++ line.toList, ?_, ?_⟩
      · simp only [Function.update_self]
        exact hhanded.step hreader
      · rw [← List.append_assoc, textsOn_append, htexts, List.map_append]
        cases line <;> simp [textsOn]
    · refine ⟨handed, ?_, ?_⟩
      · simp only [Function.update_of_ne hpipe]
        exact hhanded
      · rw [← List.append_assoc, textsOn_append, htexts]
        cases line <;> simp [textsOn, Ne.symm hpipe]
  · intro hover
    exact absurd hreading ((inv.atEnd hover).2 pipe)

/-- **One step keeps it.** -/
lemma Received.step (inv : Received h s) {act : ChildLinesAct} (hstep : s.step act = some t) :
    Received (h ++ s.returns act) t := by
  obtain ⟨received, rfl, inv⟩ := inv
  obtain ⟨⟨t', returned⟩, hnext, rfl⟩ := Option.map_eq_some_iff.mp hstep
  have hreturned : s.returns act = returned := by
    rw [returns, hnext]
    rfl
  rw [hreturned]
  cases act with
  | write pipe chunk =>
      simp only [next, Option.ite_none_left_eq_some, Option.some.injEq,
        Prod.mk.injEq, Bool.not_eq_true] at hnext
      obtain ⟨hopen, rfl, rfl⟩ := hnext
      refine ⟨received, by simp,
        ⟨fun pipe' => ?_, fun hover => ⟨(inv.atEnd hover).1, fun pipe' => ?_⟩⟩⟩
      · obtain ⟨handed, hhanded, htexts⟩ := inv.pipes pipe'
        refine ⟨handed, ?_, htexts⟩
        by_cases hpipe : pipe' = pipe
        · subst hpipe
          simp only [Function.update_self]
          exact hhanded.write hopen chunk
        · simp only [Function.update_of_ne hpipe]
          exact hhanded
      · have hstanding := (inv.atEnd hover).2 pipe'
        by_cases hpipe : pipe' = pipe
        · subst hpipe
          simpa only [Function.update_self, PipeReader.standing_write] using hstanding
        · simpa only [Function.update_of_ne hpipe] using hstanding
  | close pipe =>
      simp only [next, Option.some.injEq, Prod.mk.injEq] at hnext
      obtain ⟨rfl, rfl⟩ := hnext
      refine ⟨received, by simp, ⟨fun pipe' => ?_, inv.atEnd⟩⟩
      obtain ⟨handed, hhanded, htexts⟩ := inv.pipes pipe'
      refine ⟨handed, ?_, htexts⟩
      apply hhanded.of_closed
      by_cases hpipe : pipe' = pipe
      · subst hpipe
        simp
      · simp [Function.update_of_ne hpipe]
  | forward pipe act =>
      simp only [next, Option.map_eq_some_iff, Prod.mk.injEq] at hnext
      obtain ⟨s', hforward, rfl, rfl⟩ := hnext
      obtain ⟨inv', hover⟩ := inv.forward hforward
      exact ⟨received, by rw [hover]; simp, inv'⟩
  | nextLine =>
      simp only [next, Option.ite_none_left_eq_some] at hnext
      obtain ⟨hgoing, hnext⟩ := hnext
      split at hnext
      · rename_i line rest hchannel
        simp only [Option.some.injEq, Prod.mk.injEq] at hnext
        obtain ⟨rfl, rfl⟩ := hnext
        refine ⟨received ++ [line], by simp [hgoing], ⟨fun pipe' => ?_, fun hover => ?_⟩⟩
        · obtain ⟨handed, hhanded, htexts⟩ := inv.pipes pipe'
          refine ⟨handed, hhanded, ?_⟩
          rw [← htexts, hchannel]
          simp
        · exact absurd hover hgoing
      · rename_i hchannel
        simp only [Option.ite_none_left_eq_some, Option.some.injEq, Prod.mk.injEq, not_or] at hnext
        obtain ⟨⟨hstdout, hstderr⟩, rfl, rfl⟩ := hnext
        refine ⟨received, by simp [hgoing], ⟨inv.pipes, fun _ => ⟨hchannel, fun pipe' => ?_⟩⟩⟩
        cases pipe' with
        | stdout => exact hstdout
        | stderr => exact hstderr

lemma received_of_run (run : Run step anyAction returns spawned h s) : Received h s := by
  refine run.history_invariant (I := Received) ?_ received_spawned
  intro h s act t inv _ hstep
  exact inv.step hstep

/-- Of each pipe, the beginning of what was written to it is received. -/
lemma Merging.begins (inv : Merging received s) (pipe : Pipe) :
    textsOn pipe received <+: (segments lineFeed (s.written pipe)).map fromUtf8Lossy := by
  obtain ⟨handed, hhanded, htexts⟩ := inv.pipes pipe
  rw [textsOn_append] at htexts
  have hbegins : textsOn pipe received <+: handed.map fromUtf8Lossy := ⟨_, htexts⟩
  exact hbegins.trans (hhanded.begins.map _)

/-- So is the beginning of what will have been written to it. -/
lemma Merging.begins_all (inv : Merging received s) {bytes : List UInt8}
    (hwrites : s.written pipe <+: bytes ∧ (s.closed pipe = true → s.written pipe = bytes)) :
    textsOn pipe received <+: (segments lineFeed bytes).map fromUtf8Lossy := by
  obtain ⟨handed, hhanded, htexts⟩ := inv.pipes pipe
  rw [textsOn_append] at htexts
  have hbegins : textsOn pipe received <+: handed.map fromUtf8Lossy := ⟨_, htexts⟩
  exact hbegins.trans ((hhanded.begins_all hwrites.1 hwrites.2).map _)

/-- **Each pipe's lines come in its order.**  Whatever the child writes, and however the tasks and
the receiver go on, the lines received of a pipe are the beginning of those written to it, and
`None` comes after all of them; then every line was received of a pipe whose task met no read that
failed. -/
theorem received_begin_each_pipe (run : Run step anyAction returns spawned h s) :
    ∃ received, h = received.map some ++ (if s.atEnd then [none] else []) ∧
      ∀ pipe, textsOn pipe received <+:
          (segments lineFeed (s.written pipe)).map fromUtf8Lossy ∧
        (s.atEnd = true → (s.readers pipe).standing ≠ .stopped →
          s.closed pipe = true ∧ textsOn pipe received =
            (segments lineFeed (s.written pipe)).map fromUtf8Lossy) := by
  obtain ⟨received, hshown, inv⟩ := received_of_run run
  refine ⟨received, hshown, fun pipe => ⟨inv.begins pipe, fun hover hgoes => ?_⟩⟩
  obtain ⟨handed, hhanded, htexts⟩ := inv.pipes pipe
  obtain ⟨hchannel, hstopped⟩ := inv.atEnd hover
  have hended : (s.readers pipe).standing = .ended := by
    cases hstanding : (s.readers pipe).standing with
    | reading => exact absurd hstanding (hstopped pipe)
    | ended => rfl
    | stopped => exact absurd hstanding hgoes
  obtain ⟨hall, hclosed⟩ := hhanded.all hended
  rw [hchannel, List.append_nil] at htexts
  exact ⟨hclosed, by rw [← hall, ← htexts]⟩

/-- A child whose last line has no line feed, on two pipes. -/
def twoPipes : List ChildLinesAct :=
  [.write .stdout (utf8 "a\nb"), .write .stderr (utf8 "c\n"), .forward .stdout (.fill 3),
    .forward .stdout .scan, .forward .stderr (.fill 2), .forward .stderr .scan,
    .forward .stderr .handOn, .forward .stdout .handOn, .nextLine, .close .stdout, .close .stderr,
    .forward .stdout .scan, .forward .stdout .endOfFile, .forward .stdout .handOn,
    .forward .stdout .endOfFile, .forward .stderr .endOfFile, .nextLine, .nextLine, .nextLine]

theorem received_begin_two_pipes :
    textsOn .stdout [(.stderr, "c"), (.stdout, "a"), (.stdout, "b")] =
      (segments lineFeed (utf8 "a\nb")).map fromUtf8Lossy := by
  have hdone : (exec step spawned twoPipes).map (fun s =>
      (s.atEnd, s.written .stdout, (s.readers .stdout).standing)) =
        some (true, utf8 "a\nb", .ended) := by decide +kernel
  have hshown : execShown step returns spawned twoPipes =
      [some (.stderr, "c"), some (.stdout, "a"), some (.stdout, "b"), none] := by decide +kernel
  obtain ⟨s, hs, hend⟩ := Option.map_eq_some_iff.mp hdone
  simp only [Prod.mk.injEq] at hend
  obtain ⟨hover, hwritten, hended⟩ := hend
  obtain ⟨received, hreceived, hpipes⟩ := received_begin_each_pipe (.of_exec hs)
  rw [hshown, hover, if_pos rfl] at hreceived
  obtain rfl : received = [(.stderr, "c"), (.stdout, "a"), (.stdout, "b")] := by
    have hsame : [(Pipe.stderr, "c"), (.stdout, "a"), (.stdout, "b")].map some ++ [none] =
        received.map some ++ [none] := hreceived
    exact (List.map_injective_iff.mpr (Option.some_injective _)
      (List.append_cancel_right hsame)).symm
  rw [← hwritten]
  exact ((hpipes .stdout).2 hover (by rw [hended]; simp)).2

/-! ## The stream ends -/

/-- Not the child's, and no failure. -/
def isOwn : ChildLinesAct → Bool
  | .write _ _ => false
  | .close _ => false
  | .forward _ act => act ≠ .stop
  | .nextLine => true

/-- What the tasks and the receiver have left to do: a line that is sent is still to be received. -/
def left (s : ChildLines) : ℕ :=
  2 * ((s.readers .stdout).work + (s.readers .stderr).work) + s.channel.length +
    (if s.atEnd then 0 else 1)

lemma left_lt_of_own {act : ChildLinesAct} (own : isOwn act = true) (hstep : s.step act = some t) :
    t.left < s.left := by
  obtain ⟨⟨t', returned⟩, hnext, rfl⟩ := Option.map_eq_some_iff.mp hstep
  cases act with
  | write pipe chunk => cases own
  | close pipe => cases own
  | forward pipe act =>
      simp only [next, Option.map_eq_some_iff, Prod.mk.injEq] at hnext
      obtain ⟨s', hforward, rfl, -⟩ := hnext
      simp only [forwardLines, Option.ite_none_left_eq_some, Option.map_eq_some_iff] at hforward
      obtain ⟨-, ⟨r, line⟩, hreader, rfl⟩ := hforward
      have hwork := PipeReader.work_lt_of_step hreader
      have hone : (line.map fun line => (pipe, fromUtf8Lossy line)).toList.length ≤ 1 := by
        cases line <;> simp
      simp only [left, List.length_append]
      cases pipe with
      | stdout =>
          have hother : Pipe.stderr ≠ .stdout := by decide
          simp only [Function.update_self, Function.update_of_ne hother]
          omega
      | stderr =>
          have hother : Pipe.stdout ≠ .stderr := by decide
          simp only [Function.update_self, Function.update_of_ne hother]
          omega
  | nextLine =>
      simp only [next, Option.ite_none_left_eq_some] at hnext
      obtain ⟨hgoing, hnext⟩ := hnext
      split at hnext
      · rename_i line rest hchannel
        simp only [Option.some.injEq, Prod.mk.injEq] at hnext
        obtain ⟨rfl, -⟩ := hnext
        simp only [left, hchannel, List.length_cons]
        omega
      · rename_i hchannel
        simp only [Option.ite_none_left_eq_some, Option.some.injEq, Prod.mk.injEq] at hnext
        obtain ⟨-, rfl, -⟩ := hnext
        simp [left, hgoing]

/-- A step of the tasks or the receiver leaves the pipes as closed as they were. -/
lemma closed_of_own {act : ChildLinesAct} (own : isOwn act = true) (hstep : s.step act = some t) :
    t.closed = s.closed := by
  obtain ⟨⟨t', returned⟩, hnext, rfl⟩ := Option.map_eq_some_iff.mp hstep
  cases act with
  | write pipe chunk => cases own
  | close pipe => cases own
  | forward pipe act =>
      simp only [next, Option.map_eq_some_iff, Prod.mk.injEq] at hnext
      obtain ⟨s', hforward, rfl, -⟩ := hnext
      simp only [forwardLines, Option.ite_none_left_eq_some, Option.map_eq_some_iff] at hforward
      obtain ⟨-, ⟨r, line⟩, -, rfl⟩ := hforward
      rfl
  | nextLine =>
      simp only [next, Option.ite_none_left_eq_some] at hnext
      obtain ⟨-, hnext⟩ := hnext
      split at hnext
      · simp only [Option.some.injEq, Prod.mk.injEq] at hnext
        rw [← hnext.1]
      · simp only [Option.ite_none_left_eq_some, Option.some.injEq, Prod.mk.injEq] at hnext
        rw [← hnext.2.1]

/-- **The stream of a child that has gone ends**: once nobody holds the pipes, the tasks and the
receiver come to an end, and then `None` was returned. -/
theorem child_lines_end (hclosed : ∀ pipe, s.closed pipe = true) :
    Settles step (fun _ act => isOwn act = true) (fun t => t.atEnd = true) s := by
  refine Settles.of_falling (I := fun s => ∀ pipe, s.closed pipe = true) left ?_ ?_ ?_ hclosed
  · intro s act t hclosed own hstep pipe
    rw [closed_of_own own hstep]
    exact hclosed pipe
  · intro s act t _ own hstep
    exact left_lt_of_own own hstep
  · intro s hclosed rest
    by_contra hgoing
    have hline := rest .nextLine rfl
    simp only [step, next, hgoing, Option.map_eq_none_iff] at hline
    cases hchannel : s.channel with
    | cons line lines => simp [hchannel] at hline
    | nil =>
        -- One of the tasks goes on, and has room in the channel.
        have hreading : ∃ pipe, (s.readers pipe).standing = .reading := by
          by_contra hnone
          have hneither : ∀ pipe, (s.readers pipe).standing ≠ .reading :=
            fun pipe h => hnone ⟨pipe, h⟩
          simp [hchannel, hneither] at hline
        obtain ⟨pipe, hreading⟩ := hreading
        obtain ⟨act, hact, hpossible⟩ := PipeReader.exists_step hreading (.inl (hclosed pipe))
        obtain ⟨⟨r, line⟩, hreader⟩ := Option.ne_none_iff_exists'.mp hpossible
        have hforward := rest (.forward pipe act) (by simpa [isOwn] using hact)
        simp [step, next, forwardLines, hchannel, hreader, channelCapacity] at hforward

theorem child_lines_end_unread :
    Settles step (fun _ act => isOwn act = true) (fun t => t.atEnd = true)
      ⟨fun _ => utf8 "a\nb", fun _ => true, fun _ => PipeReader.opened.write (utf8 "a\nb"), [],
        false⟩ :=
  child_lines_end fun _ => rfl

/-! ## A docker round's two streams -/

section Docker

variable (json : JsonLines Frame)

/-- A received line, as the collector routes it. -/
def lineOf (line : Pipe × String) : Pipe × Line := (line.1, .of json line.2)

lemma linesOn_map (pipe : Pipe) (lines : List (Pipe × String)) :
    linesOn pipe (lines.map (lineOf json)) = (textsOn pipe lines).map (.of json) := by
  rw [linesOn, textsOn, List.filter_map, List.map_map, List.map_map]
  rfl

/-- What a container's round prints, from the bytes it writes to its two pipes. -/
structure PrintsBytes (printed : Printed) (bytes : Pipe → List UInt8) : Prop where
  stdout : ((segments lineFeed (bytes .stdout)).map fromUtf8Lossy).map (.of json) = printed.stdout
  stderr : ((segments lineFeed (bytes .stderr)).map fromUtf8Lossy).map (.of json) = printed.stderr

/-- What is written so far is the beginning of what will have been, and all of it once the pipe is
closed. -/
def WritesOf (s : ChildLines) (bytes : Pipe → List UInt8) : Prop :=
  ∀ pipe, s.written pipe <+: bytes pipe ∧ (s.closed pipe = true → s.written pipe = bytes pipe)

/-- **What a collection reads is a reading of the two streams merged.**  Of a container that prints
`printed`, in writes of any sizes, the lines received at any point, read as frames, are those of a
`MergedReading`. -/
theorem received_is_mergedReading (run : Run step anyAction returns spawned h s) (printed : Printed)
    (bytes : Pipe → List UInt8) (prints : PrintsBytes json printed bytes)
    (writes : WritesOf s bytes) :
    ∃ r : MergedReading printed, r.lines = (h.filterMap id).map (lineOf json) := by
  obtain ⟨received, rfl, inv⟩ := received_of_run run
  have hlines : (received.map some ++ (if s.atEnd then [none] else [])).filterMap id =
      received := by
    rw [List.filterMap_append, List.filterMap_map]
    cases s.atEnd <;> simp
  have hbegins : ∀ pipe, linesOn pipe (received.map (lineOf json)) <+:
      ((segments lineFeed (bytes pipe)).map fromUtf8Lossy).map (.of json) := by
    intro pipe
    rw [linesOn_map]
    exact (inv.begins_all (writes pipe)).map (Line.of json)
  have hstdout := hbegins .stdout
  have hstderr := hbegins .stderr
  rw [prints.stdout] at hstdout
  rw [prints.stderr] at hstderr
  obtain ⟨outs, houts⟩ := hstdout
  obtain ⟨errs, herrs⟩ := hstderr
  have hsame : ∀ (pipe : Pipe) (lines : List Line),
      linesOn pipe (lines.map fun line => (pipe, line)) = lines := by
    intro pipe lines
    simp [linesOn, List.filter_map, Function.comp_def]
  have hother : ∀ (pipe pipe' : Pipe) (lines : List Line), pipe' ≠ pipe →
      linesOn pipe (lines.map fun line => (pipe', line)) = [] := by
    intro pipe pipe' lines hne
    simp [linesOn, List.filter_map, Function.comp_def, hne]
  have happend : ∀ (pipe : Pipe) (lines lines' : List (Pipe × Line)),
      linesOn pipe (lines ++ lines') = linesOn pipe lines ++ linesOn pipe lines' := by
    intro pipe lines lines'
    rw [linesOn, List.filter_append, List.map_append]
    rfl
  -- What is not received yet may come in any order; say stdout's first.
  refine ⟨⟨received.map (lineOf json) ++ (outs.map fun line => (.stdout, line)) ++
    errs.map fun line => (.stderr, line), ?_, ?_, received.length⟩, ?_⟩
  · rw [happend, happend, hsame, hother .stdout .stderr errs (by decide), List.append_nil]
    exact houts
  · rw [happend, happend, hsame, hother .stderr .stdout outs (by decide), List.append_nil]
    exact herrs
  · rw [hlines]
    show List.take received.length (received.map (lineOf json) ++
      (outs.map fun line => (Pipe.stdout, line)) ++ errs.map fun line => (Pipe.stderr, line)) = _
    rw [List.append_assoc]
    exact List.take_left' (by simp)

end Docker

/-- The frames of a round that passes at once, as they are written. -/
def passedFrames : List (Frame × String) :=
  [(⟨1, .output "building"⟩, "\x7b\"seq\":1,\"output\":\"building\"\x7d"),
    (⟨2, .event ⟨1786752000000000000, .roundPassed⟩⟩,
      "\x7b\"seq\":2,\"event\":\x7b\"at\":\"2026-08-15T00:00:00Z\",\"t\":\"round_passed\"\x7d\x7d")]

lemma passedFrames_ok : JsonRecords.TableOk passedFrames := by decide +kernel

/-- A way of writing frames that writes these two as they are written. -/
noncomputable def passedJson : JsonRecords Frame := .ofTable passedFrames passedFrames_ok

/-- A container that prints the two frames, and a line on its stderr. -/
noncomputable def passedPrinted : Printed where
  stdout := passedFrames.map fun frame => .of passedJson.toJsonLines frame.2
  stderr := [.of passedJson.toJsonLines "fetching"]
  numbered := by
    have hread : ∀ frame ∈ passedFrames, passedJson.read frame.2 = some frame.1 := by
      intro frame hframe
      have hwrite : passedJson.write frame.1 = frame.2 := by
        simp only [passedFrames, List.mem_cons, List.not_mem_nil, or_false] at hframe
        rcases hframe with rfl | rfl <;> rfl
      rw [← hwrite]
      exact passedJson.read_write frame.1
    rintro j line hj
    rw [List.getElem?_map, Option.map_eq_some_iff] at hj
    obtain ⟨frame, hframe, rfl⟩ := hj
    rw [Line.of, hread frame (List.mem_of_getElem? hframe)]
    match j with
    | 0 => cases hframe; rfl
    | 1 => cases hframe; rfl
    | j + 2 => cases hframe
  unframed line hline := by
    rw [List.mem_singleton.mp hline]
    exact JsonRecords.read_ofTable_of_not_object passedFrames_ok (by decide)

/-- What it writes. -/
def passedBytes : Pipe → List UInt8
  | .stdout => utf8 (String.join (passedFrames.map fun frame => frame.2 ++ "\n"))
  | .stderr => utf8 "fetching\n"

/-- Both pipes are read, and half of the second frame is written. -/
def halfWritten : List ChildLinesAct :=
  [.write .stdout ((passedBytes .stdout).take 60), .write .stderr (passedBytes .stderr),
    .forward .stdout (.fill 60), .forward .stdout .scan, .forward .stderr (.fill 9),
    .forward .stderr .scan, .forward .stderr .handOn, .forward .stdout .handOn,
    .forward .stdout .scan, .nextLine, .nextLine]

theorem received_is_mergedReading_half_written : ∃ r : MergedReading passedPrinted,
    r.lines = [(.stderr, .of passedJson.toJsonLines "fetching"),
      (.stdout, .of passedJson.toJsonLines "\x7b\"seq\":1,\"output\":\"building\"\x7d")] := by
  have hdone : (exec step spawned halfWritten).map (fun s =>
      ((s.written .stdout, s.written .stderr), (s.closed .stdout, s.closed .stderr))) =
        some (((passedBytes .stdout).take 60, passedBytes .stderr), (false, false)) := by
    decide +kernel
  have hshown : execShown step returns spawned halfWritten = [some (.stderr, "fetching"),
      some (.stdout, "\x7b\"seq\":1,\"output\":\"building\"\x7d")] := by decide +kernel
  have hstdout : (segments lineFeed (passedBytes .stdout)).map fromUtf8Lossy =
      passedFrames.map Prod.snd := by decide +kernel
  have hstderr : (segments lineFeed (passedBytes .stderr)).map fromUtf8Lossy = ["fetching"] := by
    decide +kernel
  have prints : PrintsBytes passedJson.toJsonLines passedPrinted passedBytes :=
    ⟨by rw [hstdout, List.map_map]; rfl, by rw [hstderr]; rfl⟩
  obtain ⟨s, hs, hwritten⟩ := Option.map_eq_some_iff.mp hdone
  simp only [Prod.mk.injEq] at hwritten
  obtain ⟨⟨hout, herr⟩, hopenOut, hopenErr⟩ := hwritten
  have writes : WritesOf s passedBytes := by
    intro pipe
    cases pipe with
    | stdout =>
        rw [hout, hopenOut]
        exact ⟨List.take_prefix _ _, fun h => nomatch h⟩
    | stderr =>
        rw [herr, hopenErr]
        exact ⟨List.prefix_refl _, fun h => nomatch h⟩
  have hreading := received_is_mergedReading passedJson.toJsonLines (.of_exec hs) passedPrinted
    passedBytes prints writes
  rw [hshown] at hreading
  exact hreading

end ChildLines

end AssemblyLine
