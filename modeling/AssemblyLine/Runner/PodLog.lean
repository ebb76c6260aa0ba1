import AssemblyLine.Framework.Text
import AssemblyLine.Log.Event
import Mathlib.Order.Compare

/-!
# Reading a pod's log through connections that drop

`kubectl logs --timestamps` stamps each line, and a stream that is resumed starts at the second of
the last line read: it replays lines, and lines of one instant can only be told apart by how many
there are.  `LogReadPosition` counts them, and `afterLine` says of a line whether it is new.

`Reads` is what a position knows: how much of the log has been read, and how much of it the
connection has shown.  One line keeps it (`Reads.replayed`, `Reads.read_on`), so does a reconnect
(`Reads.resumed`), and `pod_log_once` is what follows for any number of connections.

All of that is for a log stamped in order.  The runtime stamps stdout and stderr apart, and
`unresumed_reports_all_iff` is what becomes of a log that is not: a line stamped earlier than one
ahead of it is taken for a line that was read before, on a first connection too.
-/

namespace AssemblyLine

/-- How far a pod's log has been read. -/
structure LogReadPosition where
  /-- The last new line's timestamp as `kubectl` printed it, and how many new lines carried it. -/
  readUpTo : Option (String × ℕ) := none
  /-- How many lines with that timestamp the current stream has shown. -/
  shownAtThatStamp : ℕ := 0
deriving DecidableEq, Repr

namespace LogReadPosition

/-- Where a resumed stream starts. -/
def resumeFrom (position : LogReadPosition) : Option String := position.readUpTo.map Prod.fst

/-- The position as a new stream starts from it. -/
def resumed (position : LogReadPosition) : LogReadPosition :=
  { position with shownAtThatStamp := 0 }

/-- The position after a line with a timestamp not seen before. -/
def firstAt (stamp : String) : LogReadPosition := ⟨some (stamp, 1), 1⟩

/-- The position after a line stamped `stamp`, and whether that line is one not read before.
`instant` is what a timestamp says, if it is one. -/
def afterLine (instant : String → Option Instant) (position : LogReadPosition) (stamp : String) :
    LogReadPosition × Bool :=
  match position.readUpTo with
  | none => (firstAt stamp, true)
  | some (last, lines) =>
    match compare (instant stamp) (instant last) with
    | .lt => (position, false)
    | .eq =>
      let shown := position.shownAtThatStamp + 1
      (⟨some (last, max shown lines), shown⟩, lines < shown)
    | .gt => (firstAt stamp, true)

end LogReadPosition

/-! ## A line of the stream -/

/-- A line's timestamp, when it has one, and the rest of it. -/
def splitTimestamp (instant : String → Option Instant) (line : String) : Option String × String :=
  match splitOnce " " line with
  | some (stamp, rest) => if (instant stamp).isSome then (some stamp, rest) else (none, line)
  | none => (none, line)

/-- What a round keeps while it reads its pod's log. -/
structure KubernetesRound where
  position : LogReadPosition := {}
  fruitlessReconnects : ℕ := 0
  lastUnstampedLine : Option String := none
deriving DecidableEq, Repr

/-- A line's text, unless a resumed stream is replaying it.  A line with no timestamp is `kubectl`'s
own, and never a replay. -/
def KubernetesRound.textUnlessReplayed (instant : String → Option Instant) (round : KubernetesRound)
    (line : String) : KubernetesRound × Option String :=
  match splitTimestamp instant line with
  | (some stamp, text) =>
    match round.position.afterLine instant stamp with
    | (position, true) => ({ round with position, fruitlessReconnects := 0 }, some text)
    | (position, false) => ({ round with position }, none)
  | (none, text) => ({ round with lastUnstampedLine := some text }, some text)

/-- A line of a pod's log. -/
structure PodLine (instant : String → Option Instant) where
  stamp : String
  time : Instant
  text : String
  stamped : instant stamp = some time
  /-- A timestamp holds no blank. -/
  plain : ' ' ∉ stamp.toList

namespace PodLine

variable {instant : String → Option Instant}

/-- A line as `kubectl` prints it. -/
def printed (line : PodLine instant) : String :=
  line.stamp ++ (String.singleton ' ' ++ line.text)

lemma splitTimestamp_printed (line : PodLine instant) :
    splitTimestamp instant line.printed = (some line.stamp, line.text) := by
  have hsplit : splitOnce " " line.printed = some (line.stamp, line.text) :=
    splitOnce_append line.plain line.text
  have hstamp : (instant line.stamp).isSome := by rw [line.stamped]; rfl
  unfold splitTimestamp
  rw [hsplit]
  exact if_pos hstamp

/-- A printed line's text is passed on exactly when `afterLine` says it is new. -/
lemma textUnlessReplayed_printed (round : KubernetesRound) (line : PodLine instant) :
    (round.textUnlessReplayed instant line.printed).1.position =
        (round.position.afterLine instant line.stamp).1 ∧
      (round.textUnlessReplayed instant line.printed).2 =
        if (round.position.afterLine instant line.stamp).2 then some line.text else none := by
  unfold KubernetesRound.textUnlessReplayed
  rw [splitTimestamp_printed]
  dsimp only
  split
  · rename_i hline
    rw [hline]
    exact ⟨rfl, rfl⟩
  · rename_i hline
    rw [hline]
    exact ⟨rfl, rfl⟩

end PodLine

/-! ## Connections -/

section Reading

variable {instant : String → Option Instant}

/-- An instant truncated to the whole second, as `--since-time` takes it. -/
def wholeSecond (time : Instant) : Instant := time - time % 1000000000

/-- Whether a stream resumed at this position starts past a line. -/
def skips (position : LogReadPosition) (line : PodLine instant) : Bool :=
  match position.resumeFrom.bind instant with
  | some time => line.time < wholeSecond time
  | none => false

/-- The position after some lines, and those of them that are new. -/
def readLines : LogReadPosition → List (PodLine instant) → LogReadPosition × List (PodLine instant)
  | position, [] => (position, [])
  | position, line :: lines =>
    let after := position.afterLine instant line.stamp
    let rest := readLines after.1 lines
    (rest.1, if after.2 then line :: rest.2 else rest.2)

/-- The texts `next_line` returns from the lines of one stream. -/
def streamTexts (instant : String → Option Instant) :
    KubernetesRound → List String → KubernetesRound × List String
  | round, [] => (round, [])
  | round, line :: lines =>
    let after := round.textUnlessReplayed instant line
    let rest := streamTexts instant after.1 lines
    (rest.1, after.2.toList ++ rest.2)

/-- From a stream of the pod's lines, the texts of the new ones are returned. -/
theorem streamTexts_printed (round : KubernetesRound) (shown : List (PodLine instant)) :
    (streamTexts instant round (shown.map PodLine.printed)).1.position =
        (readLines round.position shown).1 ∧
      (streamTexts instant round (shown.map PodLine.printed)).2 =
        (readLines round.position shown).2.map PodLine.text := by
  induction shown generalizing round with
  | nil => exact ⟨rfl, rfl⟩
  | cons line shown ih =>
      obtain ⟨hposition, htext⟩ := PodLine.textUnlessReplayed_printed round line
      obtain ⟨ihposition, ihtexts⟩ := ih (round.textUnlessReplayed instant line.printed).1
      rw [hposition] at ihposition ihtexts
      rw [List.map_cons, streamTexts, readLines]
      refine ⟨ihposition, ?_⟩
      dsimp only
      rw [htext, ihtexts]
      split <;> rfl

/-- A connection to the log: where in it the connection starts, what it shows, and what of that is
reported as new. -/
structure Connection (instant : String → Option Instant) where
  start : ℕ
  shown : List (PodLine instant)
  unread : List (PodLine instant)
  position : LogReadPosition

/-- The connections to a log, each of which drops after some number of lines. -/
def connections (log : List (PodLine instant)) :
    LogReadPosition → List ℕ → List (Connection instant)
  | _, [] => []
  | position, drop :: drops =>
    let shown := (log.dropWhile (skips position)).take drop
    let read := readLines position shown
    { start := (log.takeWhile (skips position)).length
      shown
      unread := read.2
      position := read.1 } :: connections log read.1.resumed drops

/-- Where in the log a connection ends. -/
def Connection.stop (connection : Connection instant) : ℕ :=
  connection.start + connection.shown.length

/-- How much of the log some connections have shown, from its first line to the furthest shown. -/
def furthest (made : List (Connection instant)) : ℕ := (made.map Connection.stop).foldr max 0

/-- Everything reported as new, over all connections in order. -/
def reported (made : List (Connection instant)) : List (PodLine instant) :=
  made.flatMap Connection.unread

/-! ## What a position knows -/

/-- The lines of one instant. -/
def countAt (time : Instant) (lines : List (PodLine instant)) : ℕ :=
  lines.countP fun line => line.time = time

/-- A position that has read `read`, on a connection that has shown the log as far as `before`. -/
structure Reads (before read : List (PodLine instant)) (position : LogReadPosition) : Prop where
  prefix_read : before <+: read
  unstarted : read = [] → position.readUpTo = none
  last : ∀ line, read.getLast? = some line → ∃ stamp, instant stamp = some line.time ∧
    position = ⟨some (stamp, countAt line.time read), countAt line.time before⟩

variable {before read log shown : List (PodLine instant)} {position : LogReadPosition}
  {line last : PodLine instant}

/-- The last line of a log is its latest. -/
lemma time_le_last (ordered : read.Pairwise fun a b => a.time ≤ b.time)
    (hlast : read.getLast? = some last) : ∀ line ∈ read, line.time ≤ last.time := by
  obtain ⟨earlier, rfl⟩ := List.getLast?_eq_some_iff.mp hlast
  intro line hline
  rcases List.mem_append.mp hline with hearlier | hsame
  · exact (List.pairwise_append.mp ordered).2.2 line hearlier last (List.mem_singleton_self _)
  · rw [List.mem_singleton.mp hsame]

lemma countAt_snoc (time : Instant) (lines : List (PodLine instant)) (line : PodLine instant) :
    countAt time (lines ++ [line]) = countAt time lines + if line.time = time then 1 else 0 := by
  unfold countAt
  rw [List.countP_append, List.countP_singleton]
  simp

lemma Reads.empty : Reads ([] : List (PodLine instant)) [] {} :=
  ⟨List.prefix_rfl, fun _ => rfl, fun line hline => by cases hline⟩

/-- A position that has read lines, by the last of them. -/
lemma Reads.of_last {stamp : String} (hprefixed : before <+: read)
    (hlast : read.getLast? = some last)
    (hstamp : instant stamp = some last.time) :
    Reads before read ⟨some (stamp, countAt last.time read), countAt last.time before⟩ := by
  refine ⟨hprefixed, ?_, ?_⟩
  · rintro rfl
    cases hlast
  · intro line hline
    obtain rfl : last = line := Option.some.inj (hlast.symm.trans hline)
    exact ⟨stamp, hstamp, rfl⟩

/-- **A line already read** is told from a new one, though lines of its instant may follow. -/
lemma Reads.replayed (inv : Reads before read position)
    (ordered : read.Pairwise fun a b => a.time ≤ b.time) (hline : before ++ [line] <+: read) :
    ∃ after, position.afterLine instant line.stamp = (after, false) ∧
      Reads (before ++ [line]) read after := by
  have hmem : line ∈ read := hline.subset (by simp)
  obtain ⟨last, hlast⟩ : ∃ last, read.getLast? = some last :=
    ⟨_, List.getLast?_eq_some_getLast (List.ne_nil_of_mem hmem)⟩
  obtain ⟨stamp, hstamp, rfl⟩ := inv.last last hlast
  have hcount : countAt last.time (before ++ [line]) ≤ countAt last.time read :=
    hline.sublist.countP_le
  rw [countAt_snoc] at hcount
  have hkept := Reads.of_last hline hlast hstamp
  rw [countAt_snoc] at hkept
  unfold LogReadPosition.afterLine
  dsimp only
  rw [line.stamped, hstamp]
  rcases lt_or_eq_of_le (time_le_last ordered hlast line hmem) with hearlier | hsame
  · have hcompare : compare (some line.time) (some last.time) = .lt :=
      compare_lt_iff_lt.mpr hearlier
    rw [if_neg hearlier.ne, Nat.add_zero] at hkept
    rw [hcompare]
    exact ⟨_, rfl, hkept⟩
  · have hcompare : compare (some line.time) (some last.time) = .eq :=
      compare_eq_iff_eq.mpr hsame
    rw [if_pos hsame] at hkept hcount
    rw [hcompare]
    refine ⟨_, Prod.ext rfl ?_, ?_⟩
    · exact decide_eq_false (by omega)
    · rwa [max_eq_right hcount]

/-- **The next line of the log** is new, also when it has the last one's instant. -/
lemma Reads.read_on (inv : Reads read read position)
    (ordered : (read ++ [line]).Pairwise fun a b => a.time ≤ b.time) :
    ∃ after, position.afterLine instant line.stamp = (after, true) ∧
      Reads (read ++ [line]) (read ++ [line]) after := by
  have hmade : ∀ stamp, instant stamp = some line.time →
      Reads (read ++ [line]) (read ++ [line])
        ⟨some (stamp, countAt line.time read + 1), countAt line.time read + 1⟩ := by
    intro stamp hstamp
    have hread := Reads.of_last (List.prefix_refl (read ++ [line])) List.getLast?_concat hstamp
    rwa [countAt_snoc, if_pos rfl] at hread
  have hfirst : countAt line.time read = 0 →
      Reads (read ++ [line]) (read ++ [line]) (LogReadPosition.firstAt line.stamp) := by
    intro hnone
    have hread := hmade line.stamp line.stamped
    rwa [hnone] at hread
  unfold LogReadPosition.afterLine
  cases hlast : read.getLast? with
  | none =>
      obtain rfl := List.getLast?_eq_none_iff.mp hlast
      rw [inv.unstarted rfl]
      exact ⟨_, rfl, hfirst rfl⟩
  | some last =>
      obtain ⟨stamp, hstamp, rfl⟩ := inv.last last hlast
      have hlater : ∀ earlier ∈ read, earlier.time ≤ line.time := fun earlier hearlier =>
        (List.pairwise_append.mp ordered).2.2 earlier hearlier line (List.mem_singleton_self _)
      dsimp only
      rw [line.stamped, hstamp]
      rcases lt_or_eq_of_le (hlater last (List.mem_of_getLast? hlast)) with hnew | hsame
      · have hcompare : compare (some line.time) (some last.time) = .gt :=
          compare_gt_iff_gt.mpr hnew
        rw [hcompare]
        refine ⟨_, rfl, hfirst (List.countP_eq_zero.mpr ?_)⟩
        intro earlier hearlier
        have hle := time_le_last (List.pairwise_append.mp ordered).1 hlast earlier hearlier
        rw [decide_eq_true_eq]
        exact (lt_of_le_of_lt hle hnew).ne
      · have hcompare : compare (some line.time) (some last.time) = .eq :=
          compare_eq_iff_eq.mpr hsame.symm
        rw [hcompare, hsame]
        refine ⟨_, Prod.ext rfl ?_, ?_⟩
        · exact decide_eq_true (Nat.lt_succ_self _)
        · rw [max_eq_left (Nat.le_succ _)]
          exact hmade stamp (hsame ▸ hstamp)

/-- What a connection shows is either replayed or read on, line by line. -/
lemma Reads.readLines (inv : Reads before read position)
    (ordered : log.Pairwise fun a b => a.time ≤ b.time) (hread : read <+: log)
    (hshown : before ++ shown <+: log) :
    ∃ read', Reads (before ++ shown) read' (readLines position shown).1 ∧ read' <+: log ∧
      read' = read ++ (AssemblyLine.readLines position shown).2 ∧
      read'.length = max read.length (before.length + shown.length) := by
  induction shown generalizing before read position with
  | nil =>
      have hlength := inv.prefix_read.length_le
      refine ⟨read, ?_, hread, ?_, ?_⟩
      · rwa [List.append_nil]
      · exact (List.append_nil _).symm
      · rw [List.length_nil, Nat.add_zero, max_eq_left hlength]
  | cons line shown ih =>
      have hnext : before ++ [line] ++ shown <+: log := by
        rwa [List.append_assoc, List.singleton_append]
      have hline : before ++ [line] <+: log := (List.prefix_append _ _).trans hnext
      by_cases hshort : before.length < read.length
      · have hwithin : before ++ [line] <+: read := by
          apply List.prefix_of_prefix_length_le hline hread
          rw [List.length_append, List.length_singleton]
          exact hshort
        obtain ⟨after, hafter, inv'⟩ := inv.replayed (ordered.sublist hread.sublist) hwithin
        obtain ⟨read', hreads, hprefixed, hunread, hlength⟩ := ih inv' hread hnext
        refine ⟨read', ?_, hprefixed, ?_, ?_⟩
        · rw [AssemblyLine.readLines, hafter]
          simpa using hreads
        · rw [AssemblyLine.readLines, hafter]
          exact hunread
        · simp only [hlength, List.length_append, List.length_cons, List.length_nil]
          omega
      · obtain rfl : before = read :=
          inv.prefix_read.eq_of_length_le (Nat.le_of_not_lt hshort)
        obtain ⟨after, hafter, inv'⟩ := inv.read_on (ordered.sublist hline.sublist)
        obtain ⟨read', hreads, hprefixed, hunread, hlength⟩ := ih inv' hline hnext
        refine ⟨read', ?_, hprefixed, ?_, ?_⟩
        · rw [AssemblyLine.readLines, hafter]
          simpa using hreads
        · rw [AssemblyLine.readLines, hafter, hunread, List.append_assoc]
          rfl
        · simp only [hlength, List.length_append, List.length_cons, List.length_nil]
          omega

lemma wholeSecond_le (time : Instant) : wholeSecond time ≤ time := by
  have hremainder : 0 ≤ time % (1000000000 : ℤ) := Int.emod_nonneg _ (by decide)
  unfold wholeSecond
  exact Int.sub_le_self _ hremainder

/-- What a resumed stream skips ends before a line it does not skip. -/
lemma takeWhile_prefix_of_mem {skip : PodLine instant → Bool} (hread : read <+: log)
    (hmem : last ∈ read) (hlast : skip last = false) : log.takeWhile skip <+: read := by
  obtain ⟨rest, rfl⟩ := hread
  rw [List.takeWhile_append]
  split
  · rename_i hall
    have hevery := List.takeWhile_eq_self_iff.mp
      ((List.takeWhile_prefix skip).eq_of_length hall)
    rw [hevery last hmem] at hlast
    cases hlast
  · exact List.takeWhile_prefix skip

/-- **A new stream starts within what has been read**, and before the last line's instant. -/
lemma Reads.resumed (inv : Reads before read position) (hread : read <+: log) :
    Reads (log.takeWhile (skips position.resumed)) read position.resumed := by
  cases hlast : read.getLast? with
  | none =>
      obtain rfl := List.getLast?_eq_none_iff.mp hlast
      have hnone : position.resumed.readUpTo = none := inv.unstarted rfl
      have hskips : ∀ line : PodLine instant, skips position.resumed line = false := by
        intro line
        unfold skips LogReadPosition.resumeFrom
        rw [hnone]
        rfl
      refine ⟨?_, fun _ => hnone, fun line hline => by cases hline⟩
      cases log with
      | nil => exact List.nil_prefix
      | cons line log => rw [List.takeWhile_cons, hskips]; exact List.nil_prefix
  | some last =>
      obtain ⟨stamp, hstamp, rfl⟩ := inv.last last hlast
      have hskips : ∀ line : PodLine instant, skips
          (LogReadPosition.resumed ⟨some (stamp, countAt last.time read), countAt last.time before⟩)
          line = decide (line.time < wholeSecond last.time) := by
        intro line
        unfold skips LogReadPosition.resumeFrom LogReadPosition.resumed
        rw [Option.map_some, Option.bind_some, hstamp]
      have hshows := hskips last
      rw [decide_eq_false (not_lt.mpr (wholeSecond_le last.time))] at hshows
      have hprefixed := takeWhile_prefix_of_mem hread (List.mem_of_getLast? hlast) hshows
      have hreads := Reads.of_last hprefixed hlast hstamp
      have hnone : countAt last.time (log.takeWhile (skips (LogReadPosition.resumed
          ⟨some (stamp, countAt last.time read), countAt last.time before⟩))) = 0 := by
        refine List.countP_eq_zero.mpr ?_
        intro line hline
        have hskipped := List.mem_takeWhile_imp hline
        rw [hskips line, decide_eq_true_eq] at hskipped
        rw [decide_eq_true_eq]
        exact (lt_of_lt_of_le hskipped (wholeSecond_le last.time)).ne
      rwa [hnone] at hreads

/-- **Every run of connections** reports the log's lines past what was read, up to the furthest
shown. -/
lemma read_append_reported (ordered : log.Pairwise fun a b => a.time ≤ b.time) (drops : List ℕ)
    (inv : Reads (log.takeWhile (skips position)) read position) (hread : read <+: log) :
    read ++ reported (connections log position drops) =
      log.take (max read.length (furthest (connections log position drops))) := by
  induction drops generalizing read position with
  | nil =>
      have hfurthest : furthest (connections log position []) = 0 := rfl
      rw [hfurthest, Nat.max_zero]
      exact (List.append_nil read).trans (List.prefix_iff_eq_take.mp hread)
  | cons drop drops ih =>
      have hshown : log.takeWhile (skips position) ++
          (log.dropWhile (skips position)).take drop <+: log := by
        have hparts := (List.prefix_append_right_inj (log.takeWhile (skips position))).mpr
          (List.take_prefix drop (log.dropWhile (skips position)))
        rwa [List.takeWhile_append_dropWhile] at hparts
      obtain ⟨read', hreads, hread', hunread, hlength⟩ := inv.readLines ordered hread hshown
      have hrest := ih (hreads.resumed hread') hread'
      rw [connections, reported, List.flatMap_cons, ← List.append_assoc, ← hunread]
      refine hrest.trans (congrArg (log.take ·) ?_)
      rw [hlength, max_assoc]
      rfl

lemma stop_le_furthest {made : List (Connection instant)} {connection : Connection instant}
    (hmem : connection ∈ made) : connection.stop ≤ furthest made := by
  induction made with
  | nil => cases hmem
  | cons first made ih =>
      have hfurthest : furthest (first :: made) = max first.stop (furthest made) := rfl
      rw [hfurthest]
      rcases List.mem_cons.mp hmem with rfl | hlater
      · exact le_max_left _ _
      · exact (ih hlater).trans (le_max_right _ _)

/-- **Each line of a pod's log is reported once**, however the streams drop.  Over any number of
connections, each of which shows any part of the log from where it starts, the lines reported are
the log's from the first to the furthest shown; when the last one shows the log to its end, they
are the whole log. -/
theorem pod_log_once (log : List (PodLine instant))
    (ordered : log.Pairwise fun a b => a.time ≤ b.time) (drops : List ℕ) :
    reported (connections log {} drops) = log.take (furthest (connections log {} drops)) ∧
    ∀ drain, (connections log {} drops).getLast? = some drain → drain.stop = log.length →
      reported (connections log {} drops) = log := by
  have hstart : Reads (log.takeWhile (skips {})) [] {} :=
    Reads.resumed Reads.empty List.nil_prefix
  have hreported := read_append_reported ordered drops hstart List.nil_prefix
  rw [List.nil_append, List.length_nil, Nat.zero_max] at hreported
  refine ⟨hreported, ?_⟩
  intro drain hdrain hstop
  rw [hreported]
  apply List.take_of_length_le
  rw [← hstop]
  exact stop_le_furthest (List.mem_of_getLast? hdrain)

end Reading

/-! ## A log read in three streams -/

/-- Three timestamps. -/
def instantOf (stamp : String) : Option Instant :=
  [("2026-09-21T10:00:00.5Z", 1789984800500000000), ("2026-09-21T10:00:01.1Z", 1789984801100000000),
    ("2026-09-21T10:00:01.12Z", 1789984801120000000)].lookup stamp

/-- Two lines of one instant, and two of one second. -/
def droppedLog : List (PodLine instantOf) :=
  [⟨"2026-09-21T10:00:00.5Z", 1789984800500000000, "a", rfl, by decide⟩,
    ⟨"2026-09-21T10:00:00.5Z", 1789984800500000000, "b", rfl, by decide⟩,
    ⟨"2026-09-21T10:00:01.1Z", 1789984801100000000, "c", rfl, by decide⟩,
    ⟨"2026-09-21T10:00:01.12Z", 1789984801120000000, "d", rfl, by decide⟩]

/-- The first stream drops within an instant, the second within a second, the third drains. -/
theorem pod_log_once_drained :
    reported (connections droppedLog {} [1, 3, 9]) = droppedLog :=
  (pod_log_once droppedLog (by decide) [1, 3, 9]).2 _ rfl (by decide)

/-! ## A stream that was never resumed

The timestamp tells a replay from a new line on every connection, also on the first, which replays
nothing: a line stamped before the one ahead of it is taken for a replay there too. -/

section Unresumed

variable {instant : String → Option Instant} {position : LogReadPosition} {line : PodLine instant}
  {lines : List (PodLine instant)}

/-- A position whose last line is stamped no later than any of these. -/
def ReadNoLaterThan (position : LogReadPosition) (lines : List (PodLine instant)) : Prop :=
  ∀ last count time, position.readUpTo = some (last, count) → instant last = some time →
    ∀ line ∈ lines, time ≤ line.time

/-- A line reported as new is stamped no earlier than the last one read, and becomes the last. -/
lemma readUpTo_of_new (hnew : (position.afterLine instant line.stamp).2 = true) :
    ReadNoLaterThan position [line] ∧
      ∃ last count, (position.afterLine instant line.stamp).1.readUpTo = some (last, count) ∧
        instant last = some line.time := by
  obtain ⟨readUpTo, shown⟩ := position
  cases readUpTo with
  | none => exact ⟨fun last count time hlast => (by cases hlast), line.stamp, 1, rfl, line.stamped⟩
  | some read =>
      obtain ⟨last, count⟩ := read
      have hread : ∀ {time}, instant last = some time → time ≤ line.time →
          ReadNoLaterThan ⟨some (last, count), shown⟩ [line] := by
        intro time htime hle last' count' time' hlast htime' other hother
        cases hlast
        rw [htime] at htime'
        cases htime'
        rwa [List.mem_singleton.mp hother]
      simp only [LogReadPosition.afterLine, line.stamped] at hnew ⊢
      cases htime : instant last with
      | none =>
          refine ⟨fun last' count' time hlast hsome => ?_, line.stamp, 1, rfl, line.stamped⟩
          cases hlast
          rw [htime] at hsome
          cases hsome
      | some time =>
          rw [htime] at hnew
          rcases lt_trichotomy line.time time with hlt | heq | hgt
          · have hcompare : compare (some line.time) (some time) = .lt := compare_lt_iff_lt.mpr hlt
            rw [hcompare] at hnew
            cases hnew
          · have hcompare : compare (some line.time) (some time) = .eq := compare_eq_iff_eq.mpr heq
            rw [hcompare]
            exact ⟨hread htime heq.ge, last, _, rfl, by rw [htime, heq]⟩
          · have hcompare : compare (some line.time) (some time) = .gt := compare_gt_iff_gt.mpr hgt
            rw [hcompare]
            exact ⟨hread htime hgt.le, line.stamp, 1, rfl, line.stamped⟩

lemma sublist_readLines (position : LogReadPosition) (lines : List (PodLine instant)) :
    (readLines position lines).2.Sublist lines := by
  induction lines generalizing position with
  | nil => exact List.Sublist.slnil
  | cons line lines ih =>
      rw [readLines]
      dsimp only
      split
      · exact (ih _).cons_cons line
      · exact (ih _).cons line

/-- A stream of which every line is new is stamped in order, from the last line read on. -/
lemma ordered_of_all_new (hall : (readLines position lines).2 = lines) :
    ReadNoLaterThan position lines ∧ lines.Pairwise fun a b => a.time ≤ b.time := by
  induction lines generalizing position with
  | nil => exact ⟨fun _ _ _ _ _ line hline => (by cases hline), List.Pairwise.nil⟩
  | cons line lines ih =>
      rw [readLines] at hall
      dsimp only at hall
      cases hnew : (position.afterLine instant line.stamp).2 with
      | false =>
          rw [hnew, if_neg (by decide)] at hall
          have hlength :=
            (sublist_readLines (position.afterLine instant line.stamp).1 lines).length_le
          rw [hall, List.length_cons] at hlength
          omega
      | true =>
          rw [hnew, if_pos rfl, List.cons.injEq] at hall
          obtain ⟨hlater, hordered⟩ := ih hall.2
          obtain ⟨hfirst, last, count, hread, htime⟩ := readUpTo_of_new hnew
          have hrest : ∀ other ∈ lines, line.time ≤ other.time :=
            hlater last count line.time hread htime
          refine ⟨fun last' count' time' hlast' htime' other hother => ?_,
            List.pairwise_cons.mpr ⟨hrest, hordered⟩⟩
          have hle := hfirst last' count' time' hlast' htime' line (List.mem_singleton_self _)
          rcases List.mem_cons.mp hother with rfl | hother
          · exact hle
          · exact hle.trans (hrest other hother)

/-- **When a stream that was never resumed drops nothing.**  Read from the start of the log, every
line of it is reported as new exactly when no line is stamped earlier than one ahead of it. -/
theorem unresumed_reports_all_iff (lines : List (PodLine instant)) :
    (readLines {} lines).2 = lines ↔ lines.Pairwise fun a b => a.time ≤ b.time := by
  refine ⟨fun hall => (ordered_of_all_new hall).2, fun ordered => ?_⟩
  obtain ⟨read, -, hprefixed, hread, hlength⟩ :=
    Reads.empty.readLines ordered List.nil_prefix (List.prefix_refl ([] ++ lines))
  rw [List.nil_append] at hread
  rw [← hread]
  refine hprefixed.eq_of_length ?_
  rw [hlength, List.length_nil, Nat.zero_add, Nat.zero_max]

end Unresumed

/-- A line of one stream, and then one of the other, stamped before it: a round's last two. -/
def crossedLog : List (PodLine instantOf) :=
  [⟨"2026-09-21T10:00:01.12Z", 1789984801120000000, "warning: no lockfile", rfl, by decide⟩,
    ⟨"2026-09-21T10:00:01.1Z", 1789984801100000000, "\x7b\"seq\":9,\"event\":\x7b\x7d\x7d", rfl,
      by decide⟩]

/-- **The second line is dropped**, on the only connection there was. -/
theorem crossed_line_dropped :
    (readLines {} crossedLog).2 ≠ crossedLog ∧
      (readLines {} crossedLog).2.map PodLine.text = ["warning: no lockfile"] := by
  refine ⟨fun hall => ?_, rfl⟩
  have hlength := congrArg List.length hall
  cases hlength

end AssemblyLine
