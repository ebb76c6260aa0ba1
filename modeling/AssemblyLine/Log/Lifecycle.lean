import AssemblyLine.Log.Report
import Mathlib.Computability.RegularExpressions

/-!
# The lifecycle a job's log follows

`jobWord` is the language of finished lifecycles: each request is closed before it starts, or
starts and fails to launch, or launches and gets one verdict.  `Standing` is where a job is in
the word it is writing, and `standing` reads it off a log, failing on a log that has left the
language.  A log with a standing is a prefix of a word of `jobWord` (`exists_word_of_standing`),
and its standing is what the fold of the log reports as the job's state
(`Standing.Reads`, `reads_of_standing`): so the daemon, which looks only at the fold, sees where
in the word the job is.
-/

namespace AssemblyLine

/-- What one request can come to. -/
def requestWord : RegularExpression Lifecycle :=
  .char .requested *
    (.char .failed + .char .started *
      (.char .failed + .char .launched * (.char .passed + .char .failed)))

/-- What a job's log records: one request after another. -/
def jobWord : RegularExpression Lifecycle := requestWord.star

/-- Where a job stands in the word its log is writing. -/
inductive Standing
  /-- Between requests. -/
  | idle
  | requested
  | started
  | launched
deriving DecidableEq, Repr

namespace Standing

/-- The standing after one more letter; `none` when the word leaves the language. -/
def after : Standing → Lifecycle → Option Standing
  | .idle, .requested => some .requested
  | .requested, .started => some .started
  | .requested, .failed => some .idle
  | .started, .launched => some .launched
  | .started, .failed => some .idle
  | .launched, .passed => some .idle
  | .launched, .failed => some .idle
  | _, _ => none

/-- The letters since the last verdict. -/
def pending : Standing → List Lifecycle
  | .idle => []
  | .requested => [.requested]
  | .started => [.requested, .started]
  | .launched => [.requested, .started, .launched]

/-- Letters that finish what is pending. -/
def completion : Standing → List Lifecycle
  | .idle => []
  | _ => [.failed]

/-- The standing after one more event. -/
def afterEvent (s : Standing) (e : Event) : Option Standing :=
  match e.kind.lifecycle with
  | none => some s
  | some letter => s.after letter

/-- The reading of a fold that a standing comes to. -/
def Reads : Standing → JobProgress → Prop
  | .idle, p => p.state ≠ .queued ∧ p.state ≠ .running
  | .requested, p => p.state = .queued ∧ p.launched = none
  | .started, p => p.state = .running ∧ p.launched = none
  | .launched, p => p.state = .running ∧ p.launched.isSome

end Standing

/-- Where the job a log belongs to stands; `none` for a log outside the language. -/
def standing (events : List Event) : Option Standing :=
  events.foldlM Standing.afterEvent .idle

@[simp] lemma standing_nil : standing [] = some .idle := rfl

lemma standing_snoc (events : List Event) (e : Event) :
    standing (events ++ [e]) = (standing events).bind fun s => s.afterEvent e := by
  simp [standing, List.foldlM_append]

/-- Every lifecycle event moves the job. -/
lemma Standing.afterEvent_ne {s : Standing} {e : Event} (h : e.kind.lifecycle ≠ none) :
    s.afterEvent e ≠ some s := by
  obtain ⟨letter, hletter⟩ := Option.ne_none_iff_exists'.mp h
  rw [Standing.afterEvent, hletter]
  cases s <;> cases letter <;> decide

lemma standing_snoc_of {events : List Event} {e : Event} {s t : Standing}
    (hs : standing events = some s) (h : s.afterEvent e = some t) :
    standing (events ++ [e]) = some t := by
  rw [standing_snoc, hs, Option.bind_some, h]

/-- A failure closes an open request. -/
lemma standing_snoc_failed {events : List Event} {s : Standing} (hs : standing events = some s)
    (hopen : s ≠ .idle) (now : Instant) (reason : String) :
    standing (events ++ [⟨now, .roundFailed reason⟩]) = some .idle := by
  refine standing_snoc_of hs ?_
  cases s with
  | idle => exact absurd rfl hopen
  | requested => rfl
  | started => rfl
  | launched => rfl

/-- An event without a lifecycle letter does not move the job. -/
lemma standing_snoc_of_progress {events : List Event} {e : Event}
    (h : e.kind.lifecycle = none) : standing (events ++ [e]) = standing events := by
  rw [standing_snoc]
  cases standing events <;> simp [Standing.afterEvent, h]

/-! ## Logs with a standing are prefixes of finished lifecycles -/

/-- A letter either completes the pending word or extends it. -/
lemma Standing.pending_after {s t : Standing} {x : Lifecycle} (h : s.after x = some t) :
    (t = .idle ∧ s.pending ++ [x] ∈ requestWord.matches') ∨
      t.pending = s.pending ++ [x] := by
  rw [← RegularExpression.rmatch_iff_matches']
  cases s <;> cases x <;> simp_all [Standing.after] <;> subst h <;> decide

lemma Standing.pending_append_completion (s : Standing) :
    s = .idle ∨ s.pending ++ s.completion ∈ requestWord.matches' := by
  rw [← RegularExpression.rmatch_iff_matches']
  cases s <;> decide

/-- A log with a standing is some finished requests and what is pending of the next. -/
theorem exists_requests_of_standing {events : List Event} {s : Standing}
    (h : standing events = some s) :
    ∃ requests : List (List Lifecycle), (∀ r ∈ requests, r ∈ requestWord.matches') ∧
      lifecycleOf events = requests.flatten ++ s.pending := by
  induction events using List.reverseRecOn generalizing s with
  | nil =>
      obtain rfl : Standing.idle = s := by simpa using h
      exact ⟨[], by simp, rfl⟩
  | append_singleton events e ih =>
      obtain ⟨t, ht, hlast⟩ : ∃ t, standing events = some t ∧ t.afterEvent e = some s := by
        simpa [standing_snoc, Option.bind_eq_some_iff] using h
      obtain ⟨requests, hrequests, hword⟩ := ih ht
      rw [lifecycleOf_append, lifecycleOf_singleton, hword]
      cases hletter : e.kind.lifecycle with
      | none =>
          obtain rfl : t = s := by simpa [Standing.afterEvent, hletter] using hlast
          exact ⟨requests, hrequests, by simp⟩
      | some x =>
          have hx : t.after x = some s := by simpa [Standing.afterEvent, hletter] using hlast
          rcases Standing.pending_after hx with ⟨rfl, hdone⟩ | hpending
          · refine ⟨requests ++ [t.pending ++ [x]], ?_, by simp [Standing.pending]⟩
            intro r hr
            rcases List.mem_append.mp hr with hr | hr
            · exact hrequests r hr
            · rwa [List.mem_singleton.mp hr]
          · exact ⟨requests, hrequests, by simp [hpending]⟩

/-- A log with a standing is a prefix of a word of `jobWord`. -/
theorem exists_word_of_standing {events : List Event} {s : Standing}
    (h : standing events = some s) :
    ∃ word ∈ jobWord.matches', lifecycleOf events <+: word := by
  obtain ⟨requests, hrequests, hword⟩ := exists_requests_of_standing h
  rw [jobWord, RegularExpression.matches'_star]
  rcases s.pending_append_completion with rfl | hdone
  · refine ⟨requests.flatten, Language.join_mem_kstar hrequests, ?_⟩
    simp [hword, Standing.pending]
  · refine ⟨(requests ++ [s.pending ++ s.completion]).flatten,
      Language.join_mem_kstar fun r hr => ?_, ?_⟩
    · rcases List.mem_append.mp hr with hr | hr
      · exact hrequests r hr
      · rwa [List.mem_singleton.mp hr]
    · rw [hword, List.flatten_append, List.flatten_singleton, ← List.append_assoc]
      exact List.prefix_append _ _

/-- What one request comes to, finished or not: one request, at most one round, at most one
verdict. -/
def OneRound (letters : List Lifecycle) : Prop :=
  letters.head? = some .requested ∧ letters.count .requested = 1 ∧ letters.count .started ≤ 1 ∧
    letters.count .passed + letters.count .failed ≤ 1

lemma mem_requestWord {letters : List Lifecycle} (h : letters ∈ requestWord.matches') :
    letters = [.requested, .failed] ∨ letters = [.requested, .started, .failed] ∨
      letters = [.requested, .started, .launched, .passed] ∨
      letters = [.requested, .started, .launched, .failed] := by
  simp only [requestWord, RegularExpression.matches'_mul, RegularExpression.matches'_add,
    RegularExpression.matches'_char, Language.mem_mul, Language.mem_add] at h
  obtain ⟨requested, rfl, rest, hrest, rfl⟩ := h
  rcases hrest with rfl | ⟨started, rfl, rest, hrest, rfl⟩
  · simp
  · rcases hrest with rfl | ⟨launched, rfl, rest, hrest, rfl⟩
    · simp
    · rcases hrest with rfl | rfl <;> simp

lemma oneRound_of_mem {letters : List Lifecycle} (h : letters ∈ requestWord.matches') :
    OneRound letters := by
  unfold OneRound
  rcases mem_requestWord h with rfl | rfl | rfl | rfl <;> decide

lemma Standing.oneRound_pending {s : Standing} (h : s ≠ .idle) : OneRound s.pending := by
  unfold OneRound
  cases s with
  | idle => exact absurd rfl h
  | requested => decide
  | started => decide
  | launched => decide

/-- A log with a standing is one request after another, each with at most one round and one
verdict. -/
theorem exists_oneRounds_of_standing {events : List Event} {s : Standing}
    (h : standing events = some s) :
    ∃ requests : List (List Lifecycle), lifecycleOf events = requests.flatten ∧
      ∀ r ∈ requests, OneRound r := by
  obtain ⟨requests, hrequests, hword⟩ := exists_requests_of_standing h
  by_cases hidle : s = .idle
  · subst hidle
    exact ⟨requests, by simpa [Standing.pending] using hword,
      fun r hr => oneRound_of_mem (hrequests r hr)⟩
  · refine ⟨requests ++ [s.pending], by simp [hword], ?_⟩
    intro r hr
    rcases List.mem_append.mp hr with hr | hr
    · exact oneRound_of_mem (hrequests r hr)
    · rw [List.mem_singleton.mp hr]
      exact s.oneRound_pending hidle

/-- What a log goes on with once a job is idle begins with a request. -/
theorem head_of_idle {events more : List Event} {s : Standing}
    (hidle : standing events = some .idle) (h : standing (events ++ more) = some s) :
    (lifecycleOf more).head? = none ∨ (lifecycleOf more).head? = some .requested := by
  induction more generalizing events with
  | nil => exact .inl rfl
  | cons e more ih =>
      rw [← List.singleton_append, lifecycleOf_append, lifecycleOf_singleton]
      rw [List.append_cons] at h
      cases hletter : e.kind.lifecycle with
      | none =>
          have hstill : standing (events ++ [e]) = some .idle :=
            (standing_snoc_of_progress hletter).trans hidle
          simpa using ih hstill h
      | some x =>
          have hnext : standing (events ++ [e]) ≠ none := by
            intro hnone
            rw [standing, List.foldlM_append] at h
            have hstuck : List.foldlM Standing.afterEvent .idle (events ++ [e]) = none := hnone
            rw [hstuck] at h
            cases h
          rw [standing_snoc, hidle, Option.bind_some, Standing.afterEvent, hletter] at hnext
          cases x with
          | requested => exact .inr rfl
          | started => exact absurd rfl hnext
          | launched => exact absurd rfl hnext
          | passed => exact absurd rfl hnext
          | failed => exact absurd rfl hnext

/-! ## What the fold reads -/

lemma Standing.Reads.afterEvent {s t : Standing} {p : JobProgress} {e : Event}
    (hs : s.Reads p) (h : s.afterEvent e = some t) : t.Reads (p.afterEvent e) := by
  cases hletter : e.kind.lifecycle with
  | none =>
      obtain ⟨hstate, -, hlaunched⟩ := p.afterEvent_of_progress hletter
      obtain rfl : s = t := by simpa [Standing.afterEvent, hletter] using h
      cases s <;> simpa [Standing.Reads, hstate, hlaunched] using hs
  | some x =>
      obtain ⟨stamp, kind⟩ := e
      cases kind <;> simp [EventKind.lifecycle] at hletter <;> subst hletter <;> cases s <;>
        simp [Standing.afterEvent, EventKind.lifecycle, Standing.after] at h <;> subst h <;>
        simp_all [Standing.Reads, JobProgress.afterEvent]

/-- The fold of a log reads the log's standing. -/
theorem reads_of_standing {events : List Event} {s : Standing}
    (h : standing events = some s) : s.Reads (JobProgress.ofEvents events) := by
  induction events using List.reverseRecOn generalizing s with
  | nil =>
      obtain rfl : Standing.idle = s := by simpa using h
      simp [Standing.Reads]
  | append_singleton events e ih =>
      obtain ⟨t, ht, hlast⟩ : ∃ t, standing events = some t ∧ t.afterEvent e = some s := by
        simpa [standing_snoc, Option.bind_eq_some_iff] using h
      rw [JobProgress.ofEvents_snoc]
      exact (ih ht).afterEvent hlast

section Reading

variable {events : List Event} {s : Standing}

/-- A job is queued exactly when its latest request has not started. -/
theorem queued_iff_of_standing (h : standing events = some s) :
    (JobProgress.ofEvents events).state = .queued ↔ s = .requested := by
  have hreads := reads_of_standing h
  cases s <;> simp_all [Standing.Reads]

/-- A job is running exactly when its latest round has started and has no verdict. -/
theorem running_iff_of_standing (h : standing events = some s) :
    (JobProgress.ofEvents events).state = .running ↔ s = .started ∨ s = .launched := by
  have hreads := reads_of_standing h
  cases s <;> simp_all [Standing.Reads]

/-- A running job has a recorded handle exactly when its round has launched. -/
theorem launched_isSome_iff_of_standing (h : standing events = some s)
    (hrunning : (JobProgress.ofEvents events).state = .running) :
    (JobProgress.ofEvents events).launched.isSome ↔ s = .launched := by
  have hreads := reads_of_standing h
  cases s <;> simp_all [Standing.Reads]

/-- A request that has not been closed is in the log. -/
lemma requested_mem_of_standing (h : standing events = some s) (hs : s ≠ .idle) :
    Lifecycle.requested ∈ lifecycleOf events := by
  obtain ⟨requests, -, hword⟩ := exists_requests_of_standing h
  rw [hword]
  cases s <;> simp_all [Standing.pending]

end Reading

/-! ## Round numbers -/

/-- The log's round numbers strictly increase. -/
def RoundsIncrease (events : List Event) : Prop :=
  (startedRounds events).Pairwise (· < ·)

/-- No `RoundStarted` records a number past the fold's round count. -/
lemma le_rounds_of_mem {events : List Event} {n : ℕ} (h : n ∈ startedRounds events) :
    n ≤ (JobProgress.ofEvents events).rounds := by
  rw [JobProgress.rounds_ofEvents]
  exact le_foldl_max (Or.inl h)

lemma RoundsIncrease.snoc_of_ne {events : List Event} {e : Event} (h : RoundsIncrease events)
    (he : e.kind.lifecycle ≠ some .started) : RoundsIncrease (events ++ [e]) := by
  rw [RoundsIncrease, startedRounds_append, startedRounds_singleton_of_ne he, List.append_nil]
  exact h

/-- A round numbered past the fold's count keeps the numbers increasing. -/
lemma RoundsIncrease.snoc_started {events : List Event} {stamp : Instant} {n : ℕ}
    (h : RoundsIncrease events) (hn : (JobProgress.ofEvents events).rounds < n) :
    RoundsIncrease (events ++ [⟨stamp, .roundStarted n⟩]) := by
  rw [RoundsIncrease, startedRounds_append, startedRounds_singleton_started,
    List.pairwise_append]
  refine ⟨h, List.pairwise_singleton _ _, fun m hm k hk => ?_⟩
  rw [List.mem_singleton.mp hk]
  exact Nat.lt_of_le_of_lt (le_rounds_of_mem hm) hn

/-! ## Launches -/

/-- The rounds launched after the facts `p`, as `launchedRounds` has them. -/
def launchedRoundsFrom (p : JobProgress) : List Event → List ℕ
  | [] => []
  | e :: rest =>
    (if e.kind.lifecycle = some .launched then [p.rounds] else []) ++
      launchedRoundsFrom (p.afterEvent e) rest

/-- The round each `RoundLaunched` of a log is of, in order: the fold's count when it
is recorded. -/
def launchedRounds (events : List Event) : List ℕ := launchedRoundsFrom {} events

@[simp] lemma launchedRounds_nil : launchedRounds [] = [] := rfl

lemma launchedRounds_snoc (events : List Event) (e : Event) :
    launchedRounds (events ++ [e]) = launchedRounds events ++
      if e.kind.lifecycle = some .launched then [(JobProgress.ofEvents events).rounds] else [] := by
  have hfrom : ∀ p : JobProgress, launchedRoundsFrom p (events ++ [e]) =
      launchedRoundsFrom p events ++
        if e.kind.lifecycle = some .launched then [(events.foldl JobProgress.afterEvent p).rounds]
        else [] := by
    induction events with
    | nil => simp [launchedRoundsFrom]
    | cons first events ih => simp [launchedRoundsFrom, ih]
  exact hfrom {}

/-- A launch keeps its place as its log grows. -/
lemma getElem?_launchedRounds_of_prefix {events events' : List Event} {k round : ℕ}
    (hgrown : events <+: events') (h : (launchedRounds events)[k]? = some round) :
    (launchedRounds events')[k]? = some round := by
  obtain ⟨more, rfl⟩ := hgrown
  induction more using List.reverseRecOn with
  | nil => simpa using h
  | append_singleton more e ih =>
      obtain ⟨hk, -⟩ := List.getElem?_eq_some_iff.mp ih
      rw [← List.append_assoc, launchedRounds_snoc, List.getElem?_append_left hk]
      exact ih

/-- What a log's launches are to its round numbers. -/
structure LaunchesIncrease (events : List Event) (s : Standing) : Prop where
  increase : (launchedRounds events).Pairwise (· < ·)
  started : ∀ n ∈ launchedRounds events, n ∈ startedRounds events
  /-- The round under way is the last one started. -/
  current : s = .started ∨ s = .launched →
    (JobProgress.ofEvents events).rounds ∈ startedRounds events
  unlaunched : s = .started →
    ∀ n ∈ launchedRounds events, n < (JobProgress.ofEvents events).rounds
  last : s = .launched →
    (launchedRounds events).getLast? = some (JobProgress.ofEvents events).rounds

/-- A round numbered at least as high as every round started is at least the fold's count. -/
lemma rounds_le_of_forall {events : List Event} {round : ℕ}
    (h : ∀ n ∈ startedRounds events, n ≤ round) : (JobProgress.ofEvents events).rounds ≤ round := by
  rw [JobProgress.rounds_ofEvents]
  exact List.foldlRecOn (motive := fun m => m ≤ round) _ _ (Nat.zero_le _)
    fun m hm n hn => Nat.max_le.mpr ⟨hm, h n hn⟩

/-- Only a start or a launch puts a round under way. -/
lemma Standing.letter_of_under {s t : Standing} {letter : Lifecycle} (h : s.after letter = some t)
    (hunder : t = .started ∨ t = .launched) : letter = .started ∨ letter = .launched := by
  rcases hunder with rfl | rfl <;> cases s <;> cases letter <;> simp_all [Standing.after]

section LaunchesIncrease

variable {events : List Event} {e : Event} {s t : Standing}

/-- An event that starts and launches no round leaves the launches and the numbers. -/
lemma LaunchesIncrease.snoc_of_ne (held : LaunchesIncrease events s)
    (hunstarted : e.kind.lifecycle ≠ some .started)
    (hunlaunched : e.kind.lifecycle ≠ some .launched)
    (hunder : t = .started ∨ t = .launched → t = s) : LaunchesIncrease (events ++ [e]) t := by
  have hlaunches : launchedRounds (events ++ [e]) = launchedRounds events := by
    rw [launchedRounds_snoc, if_neg hunlaunched, List.append_nil]
  have hstarts : startedRounds (events ++ [e]) = startedRounds events := by
    rw [startedRounds_append, startedRounds_singleton_of_ne hunstarted, List.append_nil]
  have hcount : (JobProgress.ofEvents (events ++ [e])).rounds =
      (JobProgress.ofEvents events).rounds := by
    rw [JobProgress.ofEvents_snoc, JobProgress.rounds_afterEvent_of_ne _ hunstarted]
  constructor
  · rw [hlaunches]
    exact held.increase
  · rw [hlaunches, hstarts]
    exact held.started
  · intro hs
    rw [hcount, hstarts]
    exact held.current (hunder hs ▸ hs)
  · intro hs
    rw [hcount, hlaunches]
    exact held.unlaunched (hunder (.inl hs) ▸ hs)
  · intro hs
    rw [hcount, hlaunches]
    exact held.last (hunder (.inr hs) ▸ hs)

/-- A round that starts is numbered past every launch. -/
lemma LaunchesIncrease.snoc_started {stamp : Instant} {round : ℕ}
    (held : LaunchesIncrease events s)
    (hrounds : RoundsIncrease (events ++ [⟨stamp, .roundStarted round⟩])) :
    LaunchesIncrease (events ++ [⟨stamp, .roundStarted round⟩]) .started := by
  rw [RoundsIncrease, startedRounds_append, List.pairwise_append] at hrounds
  have hlater : ∀ n ∈ startedRounds events, n < round := fun n hn =>
    hrounds.2.2 n hn round (by simp [startedRounds_singleton_started])
  have hlaunches : launchedRounds (events ++ [⟨stamp, .roundStarted round⟩]) =
      launchedRounds events := by
    rw [launchedRounds_snoc, if_neg (by simp [EventKind.lifecycle]), List.append_nil]
  have hcount : (JobProgress.ofEvents (events ++ [⟨stamp, .roundStarted round⟩])).rounds =
      round := by
    rw [JobProgress.ofEvents_snoc]
    exact max_eq_left (rounds_le_of_forall fun n hn => (hlater n hn).le)
  constructor
  · rw [hlaunches]
    exact held.increase
  · intro n hn
    rw [hlaunches] at hn
    rw [startedRounds_append]
    exact List.mem_append_left _ (held.started n hn)
  · intro _
    rw [hcount, startedRounds_append, startedRounds_singleton_started]
    simp
  · intro _ n hn
    rw [hlaunches] at hn
    rw [hcount]
    exact hlater n (held.started n hn)
  · intro hs
    cases hs

/-- The round under way is launched, once. -/
lemma LaunchesIncrease.snoc_launched (held : LaunchesIncrease events .started)
    (hlaunched : e.kind.lifecycle = some .launched) :
    LaunchesIncrease (events ++ [e]) .launched := by
  have hlaunches : launchedRounds (events ++ [e]) =
      launchedRounds events ++ [(JobProgress.ofEvents events).rounds] := by
    rw [launchedRounds_snoc, if_pos hlaunched]
  have hstarts : startedRounds (events ++ [e]) = startedRounds events := by
    rw [startedRounds_append, startedRounds_singleton_of_ne (by simp [hlaunched]), List.append_nil]
  have hcount : (JobProgress.ofEvents (events ++ [e])).rounds =
      (JobProgress.ofEvents events).rounds := by
    rw [JobProgress.ofEvents_snoc, JobProgress.rounds_afterEvent_of_ne _ (by simp [hlaunched])]
  constructor
  · rw [hlaunches, List.pairwise_append]
    refine ⟨held.increase, List.pairwise_singleton _ _, ?_⟩
    intro n hn round hround
    rw [List.mem_singleton.mp hround]
    exact held.unlaunched rfl n hn
  · intro n hn
    rw [hlaunches, List.mem_append, List.mem_singleton] at hn
    rw [hstarts]
    rcases hn with hn | rfl
    · exact held.started n hn
    · exact held.current (.inl rfl)
  · intro _
    rw [hcount, hstarts]
    exact held.current (.inl rfl)
  · intro hs
    cases hs
  · intro _
    rw [hcount, hlaunches, List.getLast?_concat]

/-- No round is launched twice. -/
theorem launchesIncrease_of_standing (hs : standing events = some s)
    (hrounds : RoundsIncrease events) : LaunchesIncrease events s := by
  induction events using List.reverseRecOn generalizing s with
  | nil =>
      obtain rfl : Standing.idle = s := by simpa using hs
      refine ⟨List.Pairwise.nil, ?_, ?_, ?_, ?_⟩ <;> simp
  | append_singleton events e ih =>
      obtain ⟨before, hbefore, hafter⟩ :=
        Option.bind_eq_some_iff.mp ((standing_snoc events e).symm.trans hs)
      have hearlier : RoundsIncrease events := by
        rw [RoundsIncrease, startedRounds_append, List.pairwise_append] at hrounds
        exact hrounds.1
      have held := ih hbefore hearlier
      cases hletter : e.kind.lifecycle with
      | none =>
          obtain rfl : before = s := by simpa [Standing.afterEvent, hletter] using hafter
          exact held.snoc_of_ne (by simp [hletter]) (by simp [hletter]) fun _ => rfl
      | some letter =>
          simp only [Standing.afterEvent, hletter] at hafter
          by_cases hlaunched : letter = .launched
          · subst hlaunched
            obtain ⟨rfl, rfl⟩ : before = .started ∧ s = .launched := by
              cases before <;> cases s <;> first | exact ⟨rfl, rfl⟩ | cases hafter
            exact held.snoc_launched hletter
          · by_cases hstarted : letter = .started
            · subst hstarted
              obtain ⟨stamp, kind⟩ := e
              cases kind <;> simp [EventKind.lifecycle] at hletter
              obtain rfl : s = .started := by
                cases before <;> cases s <;> first | rfl | cases hafter
              exact held.snoc_started hrounds
            · refine held.snoc_of_ne (by simp [hletter, hstarted]) (by simp [hletter, hlaunched]) ?_
              intro hunder
              exact absurd (Standing.letter_of_under hafter hunder) (by simp [hstarted, hlaunched])

end LaunchesIncrease

end AssemblyLine
