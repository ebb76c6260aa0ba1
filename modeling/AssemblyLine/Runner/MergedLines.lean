import AssemblyLine.Round.Frame

/-!
# A docker round's two streams, read again

`docker logs -f` gives a container's stdout and its stderr on two pipes, and `ChildLines` merges
them line by line, in no order between the two.  A round's frames are on the one, and whatever is no
frame is on the other.  A collection that reattaches reads both from their start, and drops a line
that is no frame until it has reached the last frame collected before: such a line was collected
before too, if it fell among the same frames then.

`unframed_lines_kept_iff` says when it did: a line is written by some collection if and only if one
of those that read it reads at least as many frames before it as any earlier collection read at all.
-/

namespace AssemblyLine

/-- The two pipes of a child. -/
inductive Pipe
  | stdout
  | stderr
deriving DecidableEq, Repr

/-- The lines of one pipe among those of both. -/
def linesOn (pipe : Pipe) (merged : List (Pipe × Line)) : List Line :=
  (merged.filter fun x => x.1 = pipe).map Prod.snd

/-- The frames of some lines are numbered on from `c`. -/
def NumberedFrom (c : ℕ) (lines : List Line) : Prop :=
  ∀ j line, lines[j]? = some line → line.frame.map Frame.seq = some (c + j + 1)

/-- What a container's round prints: frames on stdout, numbered from 1, and on stderr what is no
frame. -/
structure Printed where
  stdout : List Line
  stderr : List Line
  numbered : NumberedFrom 0 stdout
  unframed : ∀ line ∈ stderr, line.frame = none

/-- One collection's reading of it: the two pipes merged, each in its own order, and how many lines
are read before the collection is cut off. -/
structure MergedReading (printed : Printed) where
  merged : List (Pipe × Line)
  stdout_eq : linesOn .stdout merged = printed.stdout
  stderr_eq : linesOn .stderr merged = printed.stderr
  cut : ℕ

namespace MergedReading

variable {printed : Printed}

/-- The lines that are read. -/
def lines (r : MergedReading printed) : List (Pipe × Line) := r.merged.take r.cut

/-- How many frames are. -/
def framesRead (r : MergedReading printed) : ℕ := (linesOn .stdout r.lines).length

end MergedReading

/-- How many frames come before the `i`th line of stderr, when that is among the lines. -/
def framesAhead : List (Pipe × Line) → ℕ → Option ℕ
  | [], _ => none
  | (.stdout, _) :: merged, i => (framesAhead merged i).map (· + 1)
  | (.stderr, _) :: _, 0 => some 0
  | (.stderr, _) :: merged, i + 1 => framesAhead merged i

/-- Where each line of stderr goes, and where the stream stands after all lines: `stream_into_logs`,
which writes a line routed as output to `job.log`. -/
def routeMerged (p : StreamPosition) : List (Pipe × Line) → StreamPosition × List Routed
  | [] => (p, [])
  | (.stdout, line) :: merged => routeMerged (p.route line).1 merged
  | (.stderr, line) :: merged =>
    let rest := routeMerged (p.route line).1 merged
    (rest.1, (p.route line).2 :: rest.2)

/-- Where each line of stderr goes in each collection; each resumes from where the one before it
left the position file. -/
def collectMerged {printed : Printed} : ℕ → List (MergedReading printed) → List (List Routed)
  | _, [] => []
  | lastSeq, r :: readings =>
    let routed := routeMerged (.after lastSeq) r.lines
    routed.2 :: collectMerged routed.1.lastSeq readings

/-! ## One collection -/

section Route

variable {merged : List (Pipe × Line)} {L c i : ℕ} {line : Line}

/-- Where a stream resumed after frame `L` stands when `c` frames of it have been read. -/
def StreamPosition.replayed (L c : ℕ) : StreamPosition := ⟨max L c, if c < L then L else 0⟩

lemma replayed_before (h : c < L) : StreamPosition.replayed L c = ⟨L, L⟩ := by
  rw [StreamPosition.replayed, if_pos h, max_eq_left h.le]

lemma replayed_past (h : L ≤ c) : StreamPosition.replayed L c = ⟨c, 0⟩ := by
  rw [StreamPosition.replayed, if_neg (Nat.not_lt.mpr h), max_eq_right h]

lemma replayed_zero (L : ℕ) : StreamPosition.replayed L 0 = .after L := by
  cases L <;> simp [StreamPosition.replayed, StreamPosition.after]

/-- The next frame moves it on by one. -/
lemma route_frame (hseq : line.frame.map Frame.seq = some (c + 1)) :
    ((StreamPosition.replayed L c).route line).1 = .replayed L (c + 1) := by
  obtain ⟨frame, hframe, hnumber⟩ := Option.map_eq_some_iff.mp hseq
  rcases Nat.lt_or_ge c L with hold | hnew
  · rw [replayed_before hold]
    by_cases hreached : c + 1 < L
    · rw [replayed_before hreached]
      simp [StreamPosition.route, hframe, hnumber, Nat.succ_le_of_lt hold, hreached]
    · have hlast : c + 1 = L := by omega
      rw [replayed_past hlast.ge]
      simp [StreamPosition.route, hframe, hnumber, hlast]
  · have hpast : ¬ c + 1 ≤ c := by omega
    rw [replayed_past hnew, replayed_past (Nat.le_succ_of_le hnew)]
    simp [StreamPosition.route, hframe, hnumber, hpast]

/-- A line that is no frame does not, and is output once the replay is over. -/
lemma route_unframed (hframe : line.frame = none) :
    (StreamPosition.replayed L c).route line =
      (.replayed L c, if L ≤ c then .output line.text else .alreadyCollected) := by
  rcases Nat.lt_or_ge c L with hold | hnew
  · rw [replayed_before hold, if_neg (by omega)]
    simp [StreamPosition.route, hframe, (Nat.zero_le c).trans_lt hold]
  · rw [replayed_past hnew, if_pos hnew]
    simp [StreamPosition.route, hframe]

/-- What becomes of merged lines: the stream stands after the frames among them, and a line of
stderr is output if as many frames come before it as had been collected. -/
lemma routeMerged_replayed (hnumbered : NumberedFrom c (linesOn .stdout merged))
    (hunframed : ∀ line ∈ linesOn .stderr merged, line.frame = none) :
    (routeMerged (.replayed L c) merged).1 =
        .replayed L (c + (linesOn .stdout merged).length) ∧
      ∀ i, (routeMerged (.replayed L c) merged).2[i]? =
        (framesAhead merged i).bind fun n => (linesOn .stderr merged)[i]?.map fun line =>
          if L ≤ c + n then .output line.text else .alreadyCollected := by
  induction merged generalizing c with
  | nil => exact ⟨rfl, fun i => rfl⟩
  | cons x merged ih =>
      obtain ⟨pipe, line⟩ := x
      cases pipe with
      | stdout =>
          have hon : linesOn .stdout ((.stdout, line) :: merged) = line :: linesOn .stdout merged :=
            rfl
          have hoff : linesOn .stderr ((.stdout, line) :: merged) = linesOn .stderr merged := rfl
          rw [hon] at hnumbered ⊢
          rw [hoff] at hunframed ⊢
          have hrest : NumberedFrom (c + 1) (linesOn .stdout merged) := fun j line' hj => by
            rw [hnumbered (j + 1) line' hj]
            congr 1
            omega
          have hroute := route_frame (L := L) (hnumbered 0 line rfl)
          obtain ⟨hpast, hfates⟩ := ih hrest hunframed
          rw [routeMerged, hroute]
          refine ⟨?_, fun i => ?_⟩
          · rw [hpast, List.length_cons]
            congr 1
            omega
          · rw [hfates, framesAhead]
            cases framesAhead merged i with
            | none => rfl
            | some n =>
                have hsum : c + 1 + n = c + (n + 1) := by omega
                simp only [Option.bind_some, Option.map_some, hsum]
      | stderr =>
          have hon : linesOn .stderr ((.stderr, line) :: merged) = line :: linesOn .stderr merged :=
            rfl
          have hoff : linesOn .stdout ((.stderr, line) :: merged) = linesOn .stdout merged := rfl
          rw [hoff] at hnumbered ⊢
          rw [hon] at hunframed ⊢
          obtain ⟨hframe, hrest⟩ := List.forall_mem_cons.mp hunframed
          obtain ⟨hpast, hfates⟩ := ih hnumbered hrest
          rw [routeMerged, route_unframed hframe]
          refine ⟨hpast, fun i => ?_⟩
          cases i with
          | zero => rfl
          | succ i =>
              rw [framesAhead]
              exact hfates i

end Route

/-! ## Every collection -/

section Collections

variable {printed : Printed} {L i : ℕ} {line : Line}

lemma linesOn_take (pipe : Pipe) (merged : List (Pipe × Line)) (k : ℕ) :
    linesOn pipe (merged.take k) <+: linesOn pipe merged :=
  ((List.take_prefix k merged).filter _).map _

lemma getElem?_of_read {lines read : List Line} (hread : read <+: lines)
    (hi : read[i]? = some line) : lines[i]? = some line := by
  obtain ⟨rest, rfl⟩ := hread
  rw [List.getElem?_append_left (List.getElem?_eq_some_iff.mp hi).1]
  exact hi

/-- A line of stderr that is among the lines is one of them. -/
lemma exists_of_framesAhead {merged : List (Pipe × Line)} {n : ℕ}
    (h : framesAhead merged i = some n) : ∃ line, (linesOn .stderr merged)[i]? = some line := by
  induction merged generalizing i n with
  | nil => cases h
  | cons x merged ih =>
      obtain ⟨pipe, line⟩ := x
      cases pipe with
      | stdout =>
          obtain ⟨m, hm, -⟩ := Option.map_eq_some_iff.mp h
          exact ih hm
      | stderr =>
          cases i with
          | zero => exact ⟨line, rfl⟩
          | succ i =>
              obtain ⟨line', hline'⟩ := ih h
              exact ⟨line', hline'⟩

/-- Where the `i`th line of stderr goes in one collection. -/
lemma routed_reading (r : MergedReading printed) (hline : printed.stderr[i]? = some line) :
    (routeMerged (.after L) r.lines).1.lastSeq = max L r.framesRead ∧
      ((routeMerged (.after L) r.lines).2[i]? = some (.output line.text) ↔
        ∃ n, framesAhead r.lines i = some n ∧ L ≤ n) := by
  have hstdout : linesOn .stdout r.lines <+: printed.stdout := by
    rw [← r.stdout_eq]
    exact linesOn_take _ _ _
  have hstderr : linesOn .stderr r.lines <+: printed.stderr := by
    rw [← r.stderr_eq]
    exact linesOn_take _ _ _
  have hnumbered : NumberedFrom 0 (linesOn .stdout r.lines) := fun j line hj =>
    printed.numbered j line (getElem?_of_read hstdout hj)
  obtain ⟨hpast, hfates⟩ := routeMerged_replayed (L := L) hnumbered
    fun line hmem => printed.unframed line (hstderr.subset hmem)
  rw [replayed_zero] at hpast hfates
  refine ⟨by rw [hpast, Nat.zero_add]; rfl, ?_⟩
  rw [hfates]
  constructor
  · intro hrouted
    obtain ⟨n, hn, hmap⟩ := Option.bind_eq_some_iff.mp hrouted
    obtain ⟨line', -, houtput⟩ := Option.map_eq_some_iff.mp hmap
    refine ⟨n, hn, ?_⟩
    by_contra hreplayed
    rw [Nat.zero_add, if_neg hreplayed] at houtput
    cases houtput
  · rintro ⟨n, hn, hL⟩
    obtain ⟨line', hline'⟩ := exists_of_framesAhead hn
    obtain rfl : line' = line := by
      have hsame := getElem?_of_read hstderr hline'
      rw [hline] at hsame
      exact (Option.some.inj hsame).symm
    rw [hn, Option.bind_some, hline', Option.map_some, Nat.zero_add, if_pos hL]

/-- Where it goes in all of them, the first of which resumes after frame `L`. -/
lemma output_collectMerged (hline : printed.stderr[i]? = some line)
    (readings : List (MergedReading printed)) :
    (∃ routed ∈ collectMerged L readings, routed[i]? = some (Routed.output line.text)) ↔
      ∃ before r after n, readings = before ++ r :: after ∧ framesAhead r.lines i = some n ∧
        L ≤ n ∧ ∀ b ∈ before, b.framesRead ≤ n := by
  induction readings generalizing L with
  | nil => simp [collectMerged]
  | cons r readings ih =>
      obtain ⟨hlast, hfirst⟩ := routed_reading (L := L) r hline
      rw [collectMerged, List.exists_mem_cons_iff, hfirst, hlast, ih]
      constructor
      · rintro (⟨n, hn, hL⟩ | ⟨before, r', after, n, rfl, hn, hmax, hbefore⟩)
        · exact ⟨[], r, readings, n, rfl, hn, hL, by simp⟩
        · exact ⟨r :: before, r', after, n, rfl, hn, (le_max_left _ _).trans hmax,
            List.forall_mem_cons.mpr ⟨(le_max_right _ _).trans hmax, hbefore⟩⟩
      · rintro ⟨before, r', after, n, hreadings, hn, hL, hbefore⟩
        cases before with
        | nil =>
            cases hreadings
            exact Or.inl ⟨n, hn, hL⟩
        | cons b before =>
            cases hreadings
            obtain ⟨hb, hrest⟩ := List.forall_mem_cons.mp hbefore
            exact Or.inr ⟨before, r', after, n, rfl, hn, max_le hL hb, hrest⟩

end Collections

/-- **When reattaching loses no unframed line.**  Any collections of one round read its two pipes
from their start, each merging them in an order of its own and cut off after any number of lines.
Every line of stderr is written to the job's log by some collection if and only if, for each of
them, some collection reads it after at least as many frames as any collection before that
one had read. -/
theorem unframed_lines_kept_iff (printed : Printed) (readings : List (MergedReading printed)) :
    (∀ (i : ℕ) (line : Line), printed.stderr[i]? = some line →
        ∃ routed ∈ collectMerged 0 readings, routed[i]? = some (Routed.output line.text)) ↔
      ∀ i < printed.stderr.length, ∃ before r after n, readings = before ++ r :: after ∧
        framesAhead r.lines i = some n ∧ ∀ b ∈ before, b.framesRead ≤ n := by
  constructor
  · intro hkept i hi
    obtain ⟨before, r, after, n, hreadings, hn, -, hbefore⟩ :=
      (output_collectMerged (List.getElem?_eq_getElem hi) readings).mp
        (hkept i _ (List.getElem?_eq_getElem hi))
    exact ⟨before, r, after, n, hreadings, hn, hbefore⟩
  · intro hread i line hline
    obtain ⟨before, r, after, n, hreadings, hn, hbefore⟩ :=
      hread i (List.getElem?_eq_some_iff.mp hline).1
    exact (output_collectMerged hline readings).mpr
      ⟨before, r, after, n, hreadings, hn, Nat.zero_le n, hbefore⟩

/-! ## A crash report that is read first -/

/-- A round that prints one frame, and then why it died. -/
def crashed : Printed where
  stdout := [⟨"\x7b\"seq\":1,\"output\":\"building\"\x7d", some ⟨1, .output "building"⟩⟩]
  stderr := [⟨"out of memory", none⟩]
  numbered j line hj := by
    cases j with
    | zero =>
        cases hj
        rfl
    | succ j => cases hj
  unframed line hline := by
    rw [List.mem_singleton.mp hline]

/-- The first collection is cut off after the frame. -/
def cutAfterFrame : MergedReading crashed where
  merged := [(.stdout, ⟨"\x7b\"seq\":1,\"output\":\"building\"\x7d", some ⟨1, .output "building"⟩⟩),
    (.stderr, ⟨"out of memory", none⟩)]
  stdout_eq := rfl
  stderr_eq := rfl
  cut := 1

/-- The next reads all there is, and the report before the frame. -/
def reportFirst : MergedReading crashed where
  merged := [(.stderr, ⟨"out of memory", none⟩),
    (.stdout, ⟨"\x7b\"seq\":1,\"output\":\"building\"\x7d", some ⟨1, .output "building"⟩⟩)]
  stdout_eq := rfl
  stderr_eq := rfl
  cut := 2

/-- **The report is lost**: the one collection does not read it, and the other takes it for one that
was collected before. -/
theorem report_taken_for_replayed :
    crashed.stderr[0]? = some ⟨"out of memory", none⟩ ∧
      collectMerged 0 [cutAfterFrame, reportFirst] = [[], [.alreadyCollected]] ∧
      ¬ ∃ routed ∈ collectMerged 0 [cutAfterFrame, reportFirst],
        routed[0]? = some (.output "out of memory") := by
  have hrouted : collectMerged 0 [cutAfterFrame, reportFirst] = [[], [.alreadyCollected]] := rfl
  refine ⟨rfl, hrouted, ?_⟩
  rw [hrouted]
  simp

end AssemblyLine
