import AssemblyLine.Log.Report

/-!
# What a report says of the latest round

A request and a start open a round, and the facts a report gives of the latest round should be that
round's own: `roundFacts` of a log and of what follows its opening should agree, whatever the log
held before.  Four of the five do.  The fifth, the duration, is cleared by a request and not by a
start, so a start that follows a timed round leaves that round's duration standing until the next
request or verdict.

`roundFacts_iff` is exactly when no such duration is left.
-/

namespace AssemblyLine

/-- The kinds of event that open a round. -/
def EventKind.opens : EventKind → Bool
  | .roundRequested .. => true
  | .roundStarted _ => true
  | _ => false

/-- The kinds of event that say anew how long the latest round took. -/
def EventKind.retimes : EventKind → Bool
  | .roundRequested .. => true
  | .roundPassed => true
  | .roundFailed _ => true
  | _ => false

/-- What a report says of the latest round. -/
def JobReport.roundFacts (report : JobReport) :
    JobState × Option ℕ × Option DiffSummary × Option String × Option RoundHandle :=
  (report.state, report.duration, report.diff, report.detail, report.launched)

/-- The round a log is in started at this instant, and no request came since. -/
def RunsSince (events : List Event) (start : Instant) : Prop :=
  ∃ e after, LastIn (fun e : Event => e.kind.opens = true) events e after ∧
    e.kind.lifecycle = some .started ∧ e.stamp = start

/-- A round of the log got a verdict no earlier than it started, and no request came since. -/
def Timed (events : List Event) : Prop :=
  ∃ before verdict after start, events = before ++ verdict :: after ∧
    verdict.kind.verdict.isSome ∧ (∀ e ∈ after, e.kind.retimes ≠ true) ∧
    RunsSince before start ∧ start ≤ verdict.stamp

variable {e : Event} {events : List Event}

/-- The clock runs since the last start, unless a request came after it. -/
lemma runsSince_snoc {start : Instant} : RunsSince (events ++ [e]) start ↔
    (e.kind.lifecycle = some .started ∧ e.stamp = start) ∨
      (e.kind.opens ≠ true ∧ RunsSince events start) := by
  constructor
  · rintro ⟨x, after, hlast, hstarted, hstamp⟩
    rcases lastIn_snoc.mp hlast with ⟨-, rfl, -⟩ | ⟨hopens, older, -, hlast⟩
    · exact Or.inl ⟨hstarted, hstamp⟩
    · exact Or.inr ⟨hopens, x, older, hlast, hstarted, hstamp⟩
  · rintro (⟨hstarted, hstamp⟩ | ⟨hopens, x, older, hlast, hstarted, hstamp⟩)
    · have hopens : e.kind.opens = true := by
        obtain ⟨stamp, kind⟩ := e
        cases kind <;> simp_all [EventKind.lifecycle, EventKind.opens]
      exact ⟨e, [], lastIn_snoc.mpr (Or.inl ⟨hopens, rfl, rfl⟩), hstarted, hstamp⟩
    · exact ⟨x, older ++ [e], lastIn_snoc.mpr (Or.inr ⟨hopens, older, rfl, hlast⟩), hstarted,
        hstamp⟩

/-- A log is timed by its last event, or was and its last event leaves it so. -/
lemma timed_snoc : Timed (events ++ [e]) ↔
    (e.kind.verdict.isSome ∧ ∃ start, RunsSince events start ∧ start ≤ e.stamp) ∨
      (e.kind.retimes ≠ true ∧ Timed events) := by
  constructor
  · rintro ⟨before, verdict, after, start, hsplit, hverdict, hafter, hruns, hle⟩
    rcases snoc_eq_append_cons hsplit with ⟨rfl, rfl, rfl⟩ | ⟨older, rfl, rfl⟩
    · exact Or.inl ⟨hverdict, start, hruns, hle⟩
    · refine Or.inr ⟨hafter e (by simp), before, verdict, older, start, rfl, hverdict,
        fun x hx => hafter x (by simp [hx]), hruns, hle⟩
  · rintro (⟨hverdict, start, hruns, hle⟩ |
      ⟨hretimes, before, verdict, after, start, rfl, hverdict, hafter, hruns, hle⟩)
    · exact ⟨events, e, [], start, rfl, hverdict, by simp, hruns, hle⟩
    · refine ⟨before, verdict, after ++ [e], start, by simp, hverdict, fun x hx => ?_, hruns, hle⟩
      rcases List.mem_append.mp hx with hx | hx
      · exact hafter x hx
      · rwa [List.mem_singleton.mp hx]

namespace JobProgress

/-- When the fold says the round started. -/
lemma roundStartedAt_iff {start : Instant} :
    (ofEvents events).roundStartedAt = some start ↔ RunsSince events start := by
  induction events using List.reverseRecOn with
  | nil => simp [RunsSince]
  | append_singleton events e ih =>
      rw [ofEvents_snoc, runsSince_snoc, ← ih]
      obtain ⟨stamp, kind⟩ := e
      cases kind <;> simp [afterEvent, EventKind.lifecycle, EventKind.opens]

lemma isSome_timeSpentUntil {finish : Instant} :
    ((ofEvents events).timeSpentUntil finish).isSome ↔
      ∃ start, RunsSince events start ∧ start ≤ finish := by
  simp only [← roundStartedAt_iff, timeSpentUntil]
  cases (ofEvents events).roundStartedAt with
  | none => simp
  | some start => by_cases h : start ≤ finish <;> simp [h]

/-- **When a log's fold carries a duration.** -/
lemma isSome_lastRoundDuration : (ofEvents events).lastRoundDuration.isSome ↔ Timed events := by
  induction events using List.reverseRecOn with
  | nil => simp [Timed]
  | append_singleton events e ih =>
      rw [ofEvents_snoc, timed_snoc, ← isSome_timeSpentUntil, ← ih]
      obtain ⟨stamp, kind⟩ := e
      cases kind <;> simp [afterEvent, EventKind.verdict, EventKind.retimes]

/-! ## Two logs that end alike -/

/-- Two folds agree on the latest round, its duration apart. -/
structure AgreeOnRound (p q : JobProgress) : Prop where
  state : p.state = q.state
  roundStartedAt : p.roundStartedAt = q.roundStartedAt
  committedDiff : p.committedDiff = q.committedDiff
  detail : p.detail = q.detail
  launched : p.launched = q.launched

/-- An opening event says anew all there is to say of a round but its duration. -/
lemma agreeOnRound_of_opens (p q : JobProgress) (h : e.kind.opens = true) :
    AgreeOnRound (p.afterEvent e) (q.afterEvent e) := by
  obtain ⟨stamp, kind⟩ := e
  cases kind <;> simp [EventKind.opens] at h <;> constructor <;> rfl

lemma AgreeOnRound.afterEvent {p q : JobProgress} (h : AgreeOnRound p q) (e : Event) :
    AgreeOnRound (p.afterEvent e) (q.afterEvent e) := by
  obtain ⟨stamp, kind⟩ := e
  cases kind <;> constructor <;>
    simp [JobProgress.afterEvent, h.state, h.roundStartedAt, h.committedDiff, h.detail, h.launched]

/-- What says anew how long a round took says the same of folds that agree on the round. -/
lemma AgreeOnRound.lastRoundDuration {p q : JobProgress} (h : AgreeOnRound p q)
    (he : e.kind.retimes = true) :
    (p.afterEvent e).lastRoundDuration = (q.afterEvent e).lastRoundDuration := by
  obtain ⟨stamp, kind⟩ := e
  cases kind <;> simp [EventKind.retimes] at he <;>
    simp [JobProgress.afterEvent, timeSpentUntil, h.roundStartedAt]

lemma lastRoundDuration_afterEvent (p : JobProgress) (he : e.kind.retimes ≠ true) :
    (p.afterEvent e).lastRoundDuration = p.lastRoundDuration := by
  obtain ⟨stamp, kind⟩ := e
  cases kind <;> simp_all [EventKind.retimes, afterEvent]

lemma lastRoundDuration_foldl (p : JobProgress) (h : ∀ e ∈ events, e.kind.retimes ≠ true) :
    (events.foldl JobProgress.afterEvent p).lastRoundDuration = p.lastRoundDuration := by
  induction events generalizing p with
  | nil => rfl
  | cons e events ih =>
      rw [List.foldl_cons, ih _ fun x hx => h x (by simp [hx])]
      exact lastRoundDuration_afterEvent p (h e (by simp))

/-- Folds that agree on a round go on agreeing, and agree on its duration too once that was said
anew. -/
lemma AgreeOnRound.foldl {p q : JobProgress} (h : AgreeOnRound p q) (events : List Event) :
    AgreeOnRound (events.foldl JobProgress.afterEvent p)
        (events.foldl JobProgress.afterEvent q) ∧
      (p.lastRoundDuration = q.lastRoundDuration ∨ (∃ e ∈ events, e.kind.retimes = true) →
        (events.foldl JobProgress.afterEvent p).lastRoundDuration =
          (events.foldl JobProgress.afterEvent q).lastRoundDuration) := by
  induction events generalizing p q with
  | nil => exact ⟨h, fun hsame => by simpa using hsame⟩
  | cons e events ih =>
      obtain ⟨hagree, hduration⟩ := ih (h.afterEvent e)
      refine ⟨hagree, fun hsame => hduration ?_⟩
      by_cases he : e.kind.retimes = true
      · exact Or.inl (h.lastRoundDuration he)
      · rw [lastRoundDuration_afterEvent p he, lastRoundDuration_afterEvent q he]
        simpa [he] using hsame

/-- A round without a verdict has neither a duration nor a reason, of its own. -/
lemma unjudged_ofEvents (h : ∀ e ∈ events, e.kind.verdict = none) :
    (ofEvents events).lastRoundDuration = none ∧ (ofEvents events).detail = none := by
  induction events using List.reverseRecOn with
  | nil => exact ⟨rfl, rfl⟩
  | append_singleton events e ih =>
      obtain ⟨hduration, hdetail⟩ := ih fun x hx => h x (by simp [hx])
      have he := h e (by simp)
      rw [ofEvents_snoc]
      obtain ⟨stamp, kind⟩ := e
      cases kind <;> simp_all [EventKind.verdict, afterEvent]

end JobProgress

/-! ## When a report keeps to the latest round -/

section LatestRound

variable {id : ℕ} {p rest : List Event}

/-- Folding a log and what follows it is folding on from the log. -/
lemma ofEvents_append (p s : List Event) :
    JobProgress.ofEvents (p ++ s) = s.foldl JobProgress.afterEvent (JobProgress.ofEvents p) :=
  List.foldl_append

/-- After an opening event the two logs agree on the round, its duration apart. -/
lemma agreeOnRound_append (p rest : List Event) (hopens : e.kind.opens = true) :
    JobProgress.AgreeOnRound (JobProgress.ofEvents (p ++ e :: rest))
      (JobProgress.ofEvents (e :: rest)) := by
  rw [ofEvents_append]
  exact ((JobProgress.agreeOnRound_of_opens _ _ hopens).foldl rest).1

/-- A report's facts are those of the latest round alone when its duration is. -/
lemma roundFacts_eq_iff (hopens : e.kind.opens = true) :
    (JobReport.fromEvents id (p ++ e :: rest)).roundFacts =
        (JobReport.fromEvents id (e :: rest)).roundFacts ↔
      (JobProgress.ofEvents (p ++ e :: rest)).lastRoundDuration =
        (JobProgress.ofEvents (e :: rest)).lastRoundDuration := by
  have hagree := agreeOnRound_append p rest hopens
  simp [JobReport.roundFacts, JobReport.fromEvents, hagree.state, hagree.committedDiff,
    hagree.detail, hagree.launched]

/-- Once the duration was said anew, it is the latest round's. -/
lemma lastRoundDuration_of_retimes (hopens : e.kind.opens = true)
    (hretimes : ∃ x ∈ e :: rest, x.kind.retimes = true) :
    (JobProgress.ofEvents (p ++ e :: rest)).lastRoundDuration =
      (JobProgress.ofEvents (e :: rest)).lastRoundDuration := by
  rw [ofEvents_append]
  refine ((JobProgress.agreeOnRound_of_opens _ _ hopens).foldl rest).2 ?_
  by_cases he : e.kind.retimes = true
  · -- Of the events that open a round only a request says the duration anew.
    refine Or.inl ?_
    obtain ⟨stamp, kind⟩ := e
    cases kind <;> simp [EventKind.opens, EventKind.retimes] at hopens he
    rfl
  · obtain ⟨x, hx, hxretimes⟩ := hretimes
    rcases List.mem_cons.mp hx with rfl | hx
    · exact absurd hxretimes he
    · exact Or.inr ⟨x, hx, hxretimes⟩

/-- Until the duration is said anew, the log before the round decides it. -/
lemma lastRoundDuration_of_no_retimes (hnone : ∀ x ∈ e :: rest, x.kind.retimes ≠ true) :
    (JobProgress.ofEvents (p ++ e :: rest)).lastRoundDuration =
      (JobProgress.ofEvents p).lastRoundDuration := by
  rw [ofEvents_append, JobProgress.lastRoundDuration_foldl _ hnone]

/-- **When a report's per-round facts come from the latest round alone.**  After any log, the facts
a report gives of a round that was just opened are that round's own, with neither a duration nor a
reason while it has no verdict, exactly when the round begins with a request, or has had a verdict
or another request since it began, or the log before it leaves no duration standing. -/
theorem roundFacts_iff (id : ℕ) (p : List Event) (e : Event) (rest : List Event)
    (hopens : e.kind.opens = true) :
    ((JobReport.fromEvents id (p ++ e :: rest)).roundFacts =
          (JobReport.fromEvents id (e :: rest)).roundFacts ∧
        ((∀ x ∈ e :: rest, x.kind.verdict = none) →
          (JobReport.fromEvents id (p ++ e :: rest)).duration = none ∧
            (JobReport.fromEvents id (p ++ e :: rest)).detail = none)) ↔
      (∃ x ∈ e :: rest, x.kind.retimes = true) ∨ ¬ Timed p := by
  have hagree := agreeOnRound_append p rest hopens
  have hsame : (JobProgress.ofEvents (p ++ e :: rest)).lastRoundDuration =
      (JobProgress.ofEvents (e :: rest)).lastRoundDuration ↔
        (∃ x ∈ e :: rest, x.kind.retimes = true) ∨ ¬ Timed p := by
    by_cases hretimes : ∃ x ∈ e :: rest, x.kind.retimes = true
    · exact iff_of_true (lastRoundDuration_of_retimes hopens hretimes) (Or.inl hretimes)
    · have hnone : ∀ x ∈ e :: rest, x.kind.retimes ≠ true :=
        fun x hx hx' => hretimes ⟨x, hx, hx'⟩
      have halone : (JobProgress.ofEvents (e :: rest)).lastRoundDuration = none :=
        JobProgress.lastRoundDuration_foldl {} hnone
      rw [lastRoundDuration_of_no_retimes hnone, halone, or_iff_right hretimes,
        ← JobProgress.isSome_lastRoundDuration, Option.not_isSome_iff_eq_none]
  rw [roundFacts_eq_iff hopens, ← hsame]
  refine and_iff_left_of_imp fun hduration hunjudged => ?_
  obtain ⟨halone, hreason⟩ := JobProgress.unjudged_ofEvents hunjudged
  exact ⟨hduration.trans halone, hagree.detail.trans hreason⟩

end LatestRound

/-! ## A start after a timed round -/

/-- A round that took two seconds, and passed. -/
def timedRound : List Event :=
  [⟨0, .roundStarted 1⟩, ⟨2000000000, .roundPassed⟩]

/-- The start of the next. -/
def nextStart : Event := ⟨5000000000, .roundStarted 2⟩

/-- **The next round carries the duration of the one before it**, while it runs. -/
theorem duration_outlives_round :
    nextStart.kind.opens = true ∧
      (JobReport.fromEvents 7 (timedRound ++ [nextStart])).state = .running ∧
      (JobReport.fromEvents 7 (timedRound ++ [nextStart])).duration = some 2000000000 ∧
      (JobReport.fromEvents 7 [nextStart]).duration = none ∧
      ¬ ((JobReport.fromEvents 7 (timedRound ++ [nextStart])).roundFacts =
            (JobReport.fromEvents 7 [nextStart]).roundFacts ∧
          ((∀ x ∈ [nextStart], x.kind.verdict = none) →
            (JobReport.fromEvents 7 (timedRound ++ [nextStart])).duration = none ∧
              (JobReport.fromEvents 7 (timedRound ++ [nextStart])).detail = none)) := by
  refine ⟨rfl, rfl, rfl, rfl, fun h => ?_⟩
  exact absurd (h.2 (by decide)).1 (by decide)

/-- Asked for again before it starts, the next round has its own facts. -/
theorem roundFacts_of_revise :
    (JobReport.fromEvents 7 (timedRound ++
        ⟨4000000000, .roundRequested "git@h:o/r.git" ⟨"main", "5f2a"⟩ "again" "claude"⟩ ::
          [nextStart])).roundFacts =
      (JobReport.fromEvents 7
        (⟨4000000000, .roundRequested "git@h:o/r.git" ⟨"main", "5f2a"⟩ "again" "claude"⟩ ::
          [nextStart])).roundFacts :=
  ((roundFacts_iff 7 timedRound _ [nextStart] rfl).mpr
    (Or.inl ⟨_, List.mem_cons_self, rfl⟩)).1

end AssemblyLine
