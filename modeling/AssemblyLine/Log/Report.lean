import AssemblyLine.Framework.Last
import AssemblyLine.Log.Event
import Mathlib.Data.List.Induction

/-!
# A job's report

`JobReport.fromEvents` folds a job's events into everything its log says about it.  The fold is
the daemon's only memory: what it owes a job on a restart, whether a job is queued or running,
and the number of its next round are all read off a report.
-/

namespace AssemblyLine

/-- How much a round changed, as recorded when its work was committed. -/
structure DiffSummary where
  files : ℕ
  insertions : ℕ
  deletions : ℕ
deriving DecidableEq, Repr

/-- A job's facts, accumulated as its event stream is folded. -/
structure JobProgress where
  state : JobState := .pending
  /-- The source counts in 32 bits.  It is how many of the job's rounds have started
  (`rounds_counted`), so the number of the next one fits while fewer than `2 ^ 32 - 1` have. -/
  rounds : ℕ := 0
  roundStartedAt : Option Instant := none
  lastRoundDuration : Option ℕ := none
  committedDiff : Option DiffSummary := none
  detail : Option String := none
  branch : Option String := none
  remoteUrl : Option String := none
  base : Option PinnedRef := none
  firstPrompt : Option String := none
  latestPrompt : Option String := none
  provider : Option String := none
  pullRequest : Option String := none
  launched : Option RoundHandle := none
  requestedAt : Option Instant := none
deriving DecidableEq, Repr

namespace JobProgress

/-- `to_std` refuses a negative duration, so a clock that went back gives none. -/
def timeSpentUntil (p : JobProgress) (finish : Instant) : Option ℕ :=
  p.roundStartedAt.bind fun start =>
    if 0 ≤ finish - start then some (finish - start).toNat else none

/-- The facts after one more event. -/
def afterEvent (p : JobProgress) (e : Event) : JobProgress :=
  match e.kind with
  | .roundRequested remoteUrl base prompt provider =>
    -- What waits is the round just asked for, so the previous round's reason, diff and timing
    -- no longer describe it.
    { p with
      state := .queued
      roundStartedAt := none
      lastRoundDuration := none
      committedDiff := none
      detail := none
      launched := none
      requestedAt := some e.stamp
      remoteUrl := p.remoteUrl.or (some remoteUrl)
      firstPrompt := p.firstPrompt.or (some prompt)
      latestPrompt := some prompt
      base := some base
      provider := some provider }
  | .roundStarted round =>
    { p with
      state := .running
      rounds := max round p.rounds
      roundStartedAt := some e.stamp
      committedDiff := none
      detail := none
      launched := none }
  | .roundLaunched handle => { p with launched := some handle }
  | .roundCommitted _ files insertions deletions =>
    { p with committedDiff := some ⟨files, insertions, deletions⟩ }
  | .branchPushed branch _ => { p with branch := some branch }
  | .pullRequestOpened url => { p with pullRequest := some url }
  -- The `RoundFailed` that follows carries the reason.
  | .verifyRejected _ => p
  | .roundPassed =>
    { p with state := .passed, lastRoundDuration := p.timeSpentUntil e.stamp }
  | .roundFailed reason =>
    { p with
      state := .failed
      lastRoundDuration := p.timeSpentUntil e.stamp
      detail := some reason }

/-- The facts a whole event stream adds up to. -/
def ofEvents (events : List Event) : JobProgress :=
  events.foldl afterEvent {}

@[simp] lemma ofEvents_nil : ofEvents [] = {} := rfl

lemma ofEvents_snoc (events : List Event) (e : Event) :
    ofEvents (events ++ [e]) = (ofEvents events).afterEvent e := by
  simp [ofEvents]

/-- What the last event of a kind establishes, and events of other kinds keep, holds of the fold. -/
lemma ofEvents_of_lastIn {kindOf : Event → Prop} {Q : List Event → JobProgress → Prop}
    {events after : List Event} {e : Event} (h : LastIn kindOf events e after)
    (hset : ∀ p, Q [] (afterEvent p e))
    (hkeep : ∀ p older x, ¬ kindOf x → Q older p → Q (older ++ [x]) (afterEvent p x)) :
    Q after (ofEvents events) :=
  h.foldl hset hkeep {}

end JobProgress

/-- Everything a job's event log says about it. -/
structure JobReport where
  id : ℕ
  state : JobState
  /-- The highest round any `RoundStarted` records; 0 when none does. -/
  rounds : ℕ
  duration : Option ℕ
  diff : Option DiffSummary
  detail : Option String
  branch : Option String
  remoteUrl : Option String
  base : Option PinnedRef
  firstPrompt : Option String
  latestPrompt : Option String
  provider : Option String
  pullRequest : Option String
  /-- How to find the latest round on its runner, once it has launched. -/
  launched : Option RoundHandle
  /-- When the job's latest round was asked for. -/
  requestedAt : Option Instant
deriving DecidableEq, Repr

/-- Fold a job's event stream.  A job with no events yet is pending with no rounds. -/
def JobReport.fromEvents (id : ℕ) (events : List Event) : JobReport :=
  let progress := JobProgress.ofEvents events
  { id
    state := progress.state
    rounds := progress.rounds
    duration := progress.lastRoundDuration
    diff := progress.committedDiff
    detail := progress.detail
    branch := progress.branch
    remoteUrl := progress.remoteUrl
    base := progress.base
    firstPrompt := progress.firstPrompt
    latestPrompt := progress.latestPrompt
    provider := progress.provider
    pullRequest := progress.pullRequest
    launched := progress.launched
    requestedAt := progress.requestedAt }

namespace JobReport

@[simp] lemma fromEvents_state (id : ℕ) (events : List Event) :
    (fromEvents id events).state = (JobProgress.ofEvents events).state := rfl

@[simp] lemma fromEvents_rounds (id : ℕ) (events : List Event) :
    (fromEvents id events).rounds = (JobProgress.ofEvents events).rounds := rfl

@[simp] lemma fromEvents_launched (id : ℕ) (events : List Event) :
    (fromEvents id events).launched = (JobProgress.ofEvents events).launched := rfl

end JobReport

/-! ## What each field depends on -/

namespace JobProgress

variable {events : List Event} {e : Event}

/-- Only a `RoundStarted` raises the round count. -/
lemma rounds_afterEvent_of_ne (p : JobProgress) (h : e.kind.lifecycle ≠ some .started) :
    (p.afterEvent e).rounds = p.rounds := by
  obtain ⟨stamp, kind⟩ := e
  cases kind <;> simp_all [afterEvent, EventKind.lifecycle]

/-- The round count is the highest number any `RoundStarted` records. -/
theorem rounds_ofEvents (events : List Event) :
    (ofEvents events).rounds = (startedRounds events).foldl max 0 := by
  induction events using List.reverseRecOn with
  | nil => rfl
  | append_singleton events e ih =>
      rw [ofEvents_snoc, startedRounds_append]
      obtain ⟨stamp, kind⟩ := e
      by_cases h : kind.lifecycle = some .started
      · cases kind <;> simp [EventKind.lifecycle] at h
        simp [afterEvent, startedRounds_singleton_started, ih, Nat.max_comm]
      · rw [rounds_afterEvent_of_ne _ h, startedRounds_singleton_of_ne h, ih]
        simp

/-- An event without a lifecycle letter leaves the state and the recorded handle alone. -/
lemma afterEvent_of_progress (p : JobProgress) (h : e.kind.lifecycle = none) :
    (p.afterEvent e).state = p.state ∧ (p.afterEvent e).rounds = p.rounds ∧
      (p.afterEvent e).launched = p.launched := by
  obtain ⟨stamp, kind⟩ := e
  cases kind <;> simp_all [afterEvent, EventKind.lifecycle]

/-- A job that was ever asked for has a recorded request: where it clones from, its base, its
prompt and its provider. -/
def HasRequest (p : JobProgress) : Prop :=
  p.remoteUrl.isSome ∧ p.base.isSome ∧ p.latestPrompt.isSome ∧ p.provider.isSome

lemma HasRequest.afterEvent {p : JobProgress} (h : p.HasRequest) (e : Event) :
    (p.afterEvent e).HasRequest := by
  obtain ⟨stamp, kind⟩ := e
  obtain ⟨hurl, hbase, hprompt, hprovider⟩ := h
  cases kind <;> simp_all [HasRequest, JobProgress.afterEvent]

lemma hasRequest_afterEvent_of_requested (p : JobProgress)
    (h : e.kind.lifecycle = some .requested) : (p.afterEvent e).HasRequest := by
  obtain ⟨stamp, kind⟩ := e
  cases kind <;> simp_all [HasRequest, afterEvent, EventKind.lifecycle]

/-- Once a `RoundRequested` is in the log, the request can be read back from its fold. -/
theorem hasRequest_of_mem (h : .requested ∈ lifecycleOf events) :
    (ofEvents events).HasRequest := by
  induction events using List.reverseRecOn with
  | nil => simp at h
  | append_singleton events e ih =>
      rw [ofEvents_snoc]
      rw [lifecycleOf_append, lifecycleOf_singleton, List.mem_append] at h
      rcases h with h | h
      · exact (ih h).afterEvent e
      · exact hasRequest_afterEvent_of_requested _ (by simpa using h)

end JobProgress

end AssemblyLine
