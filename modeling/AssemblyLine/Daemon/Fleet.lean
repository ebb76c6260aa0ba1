import AssemblyLine.Log.Lifecycle
import AssemblyLine.Round.Collect
import AssemblyLine.Round.Completion

/-!
# What a starting daemon owes a job

`Resumption.forReport` decides it from the job's log alone: back in the queue, reattach to the
round, or close a round lost while it was launching.

The second half follows one launched round across daemon lifetimes, each killed after any step of
collecting and each next one reattaching exactly when the log's fold says so.
`reportsReach_iff` says in which histories the log ends up with everything the round reported:
those in which no daemon dies with the verdict in the log and a later event not.  A round's pull
request comes after its verdict, so the others are those that lose it
(`pullRequest_lost_by_kill`).
-/

namespace AssemblyLine

/-! ## What is owed -/

inductive Resumption
  /-- Asked for and never started: back in the queue. -/
  | requeue
  /-- Launched and never judged: collect it from where the log left off. -/
  | reattach (round : ℕ) (handle : RoundHandle)
  /-- Started but never recorded as launched. -/
  | lostWhileLaunching (round : ℕ)
deriving DecidableEq, Repr

def Resumption.forReport (report : JobReport) : Option Resumption :=
  match report.state, report.launched with
  | .queued, _ => some .requeue
  | .running, some handle => some (.reattach report.rounds handle)
  | .running, none => some (.lostWhileLaunching report.rounds)
  | .pending, _ => none
  | .passed, _ => none
  | .failed, _ => none

/-- Why a round a daemon started, and never recorded as launched, has failed. -/
def lostWhileLaunching (job : ℕ) : String :=
  "the daemon was killed while this round was launching, so it cannot be found again — " ++
    s!"check the runner for a stray round, then `submit --job {job}` to try again"

/-- What a job whose log is `events` is owed. -/
def owed (id : ℕ) (events : List Event) : Option Resumption :=
  Resumption.forReport (.fromEvents id events)

section Owed

variable {id : ℕ} {events : List Event} {s : Standing}

lemma owed_of_standing_idle (h : standing events = some .idle) : owed id events = none := by
  have hreads := reads_of_standing h
  simp only [Standing.Reads] at hreads
  rw [owed, Resumption.forReport, JobReport.fromEvents_state]
  cases hstate : (JobProgress.ofEvents events).state <;> simp_all

lemma owed_of_standing_requested (h : standing events = some .requested) :
    owed id events = some .requeue := by
  have hstate := (queued_iff_of_standing h).mpr rfl
  rw [owed, Resumption.forReport, JobReport.fromEvents_state, hstate]

lemma owed_of_standing_started (h : standing events = some .started) :
    owed id events = some (.lostWhileLaunching (JobProgress.ofEvents events).rounds) := by
  obtain ⟨hstate, hlaunched⟩ := reads_of_standing h
  rw [owed, Resumption.forReport, JobReport.fromEvents_state, JobReport.fromEvents_launched,
    JobReport.fromEvents_rounds, hstate, hlaunched]

lemma owed_of_standing_launched (h : standing events = some .launched) :
    ∃ handle, (JobProgress.ofEvents events).launched = some handle ∧
      owed id events = some (.reattach (JobProgress.ofEvents events).rounds handle) := by
  obtain ⟨hstate, hlaunched⟩ := reads_of_standing h
  obtain ⟨handle, hhandle⟩ := Option.isSome_iff_exists.mp hlaunched
  refine ⟨handle, hhandle, ?_⟩
  rw [owed, Resumption.forReport, JobReport.fromEvents_state, JobReport.fromEvents_launched,
    JobReport.fromEvents_rounds, hstate, hhandle]

/-- A job owed a place in line is queued. -/
lemma requested_of_owed (h : standing events = some s) (howed : owed id events = some .requeue) :
    s = .requested := by
  cases s with
  | idle => simp [owed_of_standing_idle h] at howed
  | requested => rfl
  | started => simp [owed_of_standing_started h] at howed
  | launched =>
      obtain ⟨handle, -, hreattach⟩ := @owed_of_standing_launched id _ h
      simp [hreattach] at howed

/-- A job owed a reattachment is launched, in its latest round. -/
lemma launched_of_owed {round : ℕ} {handle : RoundHandle} (h : standing events = some s)
    (howed : owed id events = some (.reattach round handle)) :
    s = .launched ∧ round = (JobProgress.ofEvents events).rounds := by
  cases s with
  | idle => simp [owed_of_standing_idle h] at howed
  | requested => simp [owed_of_standing_requested h] at howed
  | started => simp [owed_of_standing_started h] at howed
  | launched =>
      obtain ⟨handle', -, hreattach⟩ := @owed_of_standing_launched id _ h
      rw [hreattach, Option.some.injEq, Resumption.reattach.injEq] at howed
      exact ⟨rfl, howed.1.symm⟩

/-- A job whose round was lost while launching has a started round without a handle. -/
lemma started_of_owed {round : ℕ} (h : standing events = some s)
    (howed : owed id events = some (.lostWhileLaunching round)) : s = .started := by
  cases s with
  | idle => simp [owed_of_standing_idle h] at howed
  | requested => simp [owed_of_standing_requested h] at howed
  | started => rfl
  | launched =>
      obtain ⟨handle', -, hreattach⟩ := @owed_of_standing_launched id _ h
      simp [hreattach] at howed

end Owed

/-! ## One launched round across daemon lifetimes -/

/-- Whether a daemon starting on a log reattaches to its job's round. -/
def reattaches (id : ℕ) (events : List Event) : Bool :=
  match owed id events with
  | some (.reattach _ _) => true
  | _ => false

namespace Lifetimes

/-- A daemon's part in collecting a round.  It begins to collect the round only if it reattaches
to it, as the daemon that launched the round would; killing a daemon ends its collection. -/
def step (id : ℕ) (stream : List Line) (s : Collecting) : CollectAction → Option Collecting
  | .start => if reattaches id s.disk.events then Collecting.step stream s .start else none
  | .next => Collecting.step stream s .next
  | .cancel => Collecting.step stream s .cancel
  | .kill => Collecting.step stream s .kill

/-- The last daemon has nothing left to collect: it has read the stream to its end, or found no
round to reattach to. -/
def Finished (id : ℕ) (s : Collecting) : Prop :=
  s.Ended ∨ (s.running = none ∧ reattaches id s.disk.events = false)

end Lifetimes

/-- Everything the round reported is in what its collections appended to the log. -/
def ReportsReach (stream : List Line) (d : RoundDisk) (s : Collecting) : Prop :=
  ∃ appended, s.disk.events = d.events ++ appended ∧
    ∀ e ∈ stream.filterMap Line.event?, e ∈ appended

/-- What a history of collections appended to the log. -/
def eventsWritten (stream : List Line) (h : List CollectMark) : List Event :=
  (linesWritten h).filterMap fun i => stream[i]?.bind Line.event?

/-- What a daemon killed after the history `h` leaves: a log without the round's verdict, or with
everything the round reports. -/
def KillLosesNothing (stream : List Line) (h : List CollectMark) : Prop :=
  (∀ e ∈ eventsWritten stream h, e.kind.verdict = none) ∨
    ∀ e ∈ stream.filterMap Line.event?, e ∈ eventsWritten stream h

section Reattaching

variable {id : ℕ} {events appended : List Event}

lemma reattaches_iff : reattaches id events ↔
    (JobProgress.ofEvents events).state = .running ∧
      (JobProgress.ofEvents events).launched.isSome := by
  rw [reattaches, owed, Resumption.forReport, JobReport.fromEvents_state,
    JobReport.fromEvents_launched]
  cases (JobProgress.ofEvents events).state <;>
    cases (JobProgress.ofEvents events).launched <;> simp

/-- A verdict ends a round, and what is reported after it does not start one. -/
lemma state_append_of_verdict (happended : ∀ e ∈ appended,
    e.kind.lifecycle = none ∨ e.kind.verdict.isSome)
    (hverdict : ∃ e ∈ appended, e.kind.verdict.isSome) :
    (JobProgress.ofEvents (events ++ appended)).state = .passed ∨
      (JobProgress.ofEvents (events ++ appended)).state = .failed := by
  induction appended using List.reverseRecOn with
  | nil => simp at hverdict
  | append_singleton appended e ih =>
      rw [← List.append_assoc, JobProgress.ofEvents_snoc]
      by_cases hlast : e.kind.verdict.isSome
      · obtain ⟨stamp, kind⟩ := e
        cases kind <;> simp [EventKind.verdict] at hlast <;> simp [JobProgress.afterEvent]
      · have hprogress : e.kind.lifecycle = none :=
          (happended e (by simp)).resolve_right hlast
        rw [(JobProgress.afterEvent_of_progress _ hprogress).1]
        refine ih (fun f hf => happended f (by simp [hf])) ?_
        obtain ⟨f, hf, hverdict⟩ := hverdict
        rcases List.mem_append.mp hf with hf | hf
        · exact ⟨f, hf, hverdict⟩
        · rw [List.mem_singleton.mp hf] at hverdict
          exact absurd hverdict hlast

/-- Reports short of a verdict leave a launched round launched. -/
lemma reattaches_append_of_progress (hlaunched : reattaches id events)
    (happended : ∀ e ∈ appended, e.kind.lifecycle = none) :
    reattaches id (events ++ appended) := by
  rw [reattaches_iff] at hlaunched ⊢
  induction appended using List.reverseRecOn with
  | nil => simpa using hlaunched
  | append_singleton appended e ih =>
      obtain ⟨hstate, -, hhandle⟩ :=
        (JobProgress.ofEvents (events ++ appended)).afterEvent_of_progress
        (happended e (by simp))
      rw [← List.append_assoc, JobProgress.ofEvents_snoc, hstate, hhandle]
      exact ih fun f hf => happended f (by simp [hf])

/-- A launched round is reattached to until its verdict is in the log, and not after. -/
theorem reattaches_append_iff (hlaunched : reattaches id events)
    (happended : ∀ e ∈ appended, e.kind.lifecycle = none ∨ e.kind.verdict.isSome) :
    reattaches id (events ++ appended) ↔ ∀ e ∈ appended, e.kind.verdict = none := by
  constructor
  · intro hreattaches
    by_contra hverdict
    push Not at hverdict
    have hrunning := (reattaches_iff.mp hreattaches).1
    have hover : (JobProgress.ofEvents (events ++ appended)).state = .passed ∨
        (JobProgress.ofEvents (events ++ appended)).state = .failed :=
      state_append_of_verdict happended
        (hverdict.imp fun e he => ⟨he.1, Option.isSome_iff_ne_none.mpr he.2⟩)
    simp [hrunning] at hover
  · intro hnone
    refine reattaches_append_of_progress hlaunched fun e he => ?_
    exact (happended e he).resolve_right (by simp [hnone e he])

end Reattaching

/-! ## What reaches the log -/

section Reaching

variable {id : ℕ} {stream : List Line} {d : RoundDisk} {h : List CollectMark} {s t : Collecting}

lemma mem_of_mem_eventsWritten {e : Event} (he : e ∈ eventsWritten stream h) :
    e ∈ stream.filterMap Line.event? := by
  obtain ⟨i, -, hi⟩ := List.mem_filterMap.mp he
  obtain ⟨line, hline, hevent⟩ := Option.bind_eq_some_iff.mp hi
  exact List.mem_filterMap.mpr ⟨line, List.mem_of_getElem? hline, hevent⟩

lemma eventsWritten_killed (unrecorded : Option ℕ) (bookmark : ℕ) :
    eventsWritten stream (h ++ [.killed unrecorded bookmark]) = eventsWritten stream h := by
  simp [eventsWritten, linesWritten]

/-- Every step of a daemon's part is a step of collecting. -/
lemma Lifetimes.step_collecting (s : Collecting) (a : CollectAction) (t : Collecting)
    (hstep : Lifetimes.step id stream s a = some t) : Collecting.step stream s a = some t := by
  cases a with
  | start =>
      simp only [Lifetimes.step, Option.ite_none_right_eq_some] at hstep
      exact hstep.2
  | next => exact hstep
  | cancel => exact hstep
  | kill => exact hstep

/-- A kill in a history that went on without one is in the history before. -/
lemma kill_mem_before {marks before after : List CollectMark} {unrecorded : Option ℕ}
    {bookmark : ℕ} (hmarks : CollectMark.killed unrecorded bookmark ∉ marks)
    (hsplit : h ++ marks = before ++ .killed unrecorded bookmark :: after) :
    ∃ rest, h = before ++ .killed unrecorded bookmark :: rest := by
  rcases List.append_eq_append_iff.mp hsplit with ⟨more, -, hlate⟩ | ⟨rest, hearly, hrest⟩
  · exact absurd (by simp [hlate]) hmarks
  · cases rest with
    | nil =>
        rw [List.nil_append] at hrest
        exact absurd (hrest ▸ List.mem_cons_self) hmarks
    | cons mark rest =>
        rw [List.cons_append, List.cons.injEq] at hrest
        exact ⟨rest, by rw [hearly, ← hrest.1]⟩

/-- What a history of daemons leaves, besides what any history of collections does. -/
structure Served (stream : List Line) (d : RoundDisk) (h : List CollectMark) (s : Collecting) :
    Prop where
  kept : Kept stream d h s
  /-- A daemon that collects nothing comes after a kill, or is the first. -/
  idle : s.running = none → h = [] ∨ ∃ before unrecorded bookmark,
    h = before ++ [.killed unrecorded bookmark]
  /-- Once a daemon has died with the verdict in the log, nobody collects the round again. -/
  ended : ∀ before unrecorded bookmark after, h = before ++ .killed unrecorded bookmark :: after →
    (∃ e ∈ eventsWritten stream before, e.kind.verdict.isSome) → after = [] ∧ s.running = none

lemma Served.reattaches_iff (served : Served stream d h s) (hlaunched : reattaches id d.events)
    (hreports : ∀ e ∈ stream.filterMap Line.event?,
      e.kind.lifecycle = none ∨ e.kind.verdict.isSome) :
    reattaches id s.disk.events ↔ ∀ e ∈ eventsWritten stream h, e.kind.verdict = none := by
  have hevents : s.disk.events = d.events ++ eventsWritten stream h := served.kept.events
  rw [hevents]
  exact reattaches_append_iff hlaunched fun e he => hreports e (mem_of_mem_eventsWritten he)

/-- A running collection was not started after a kill that followed the verdict. -/
lemma Served.no_kill_after_verdict (served : Served stream d h s) (hrunning : s.running ≠ none)
    {before after : List CollectMark} {unrecorded : Option ℕ} {bookmark : ℕ}
    (hkill : h = before ++ .killed unrecorded bookmark :: after) :
    ¬ ∃ e ∈ eventsWritten stream before, e.kind.verdict.isSome :=
  fun hverdict => hrunning (served.ended _ _ _ _ hkill hverdict).2

lemma Served.step (hnumbered : Numbered stream) (hlaunched : reattaches id d.events)
    (hreports : ∀ e ∈ stream.filterMap Line.event?,
      e.kind.lifecycle = none ∨ e.kind.verdict.isSome) {a : CollectAction}
    (served : Served stream d h s) (hstep : Lifetimes.step id stream s a = some t) :
    Served stream d (h ++ Collecting.shown stream s a) t := by
  have hcollecting := Lifetimes.step_collecting s a t hstep
  refine ⟨served.kept.step hnumbered hcollecting, ?_, ?_⟩
  · cases a with
    | start =>
        simp only [Collecting.step, Option.ite_none_right_eq_some, Option.some.injEq]
          at hcollecting
        obtain ⟨-, rfl⟩ := hcollecting
        simp
    | next =>
        obtain ⟨c, -, hmap⟩ := Option.bind_eq_some_iff.mp hcollecting
        obtain ⟨_, -, rfl⟩ := Option.map_eq_some_iff.mp hmap
        simp
    | cancel =>
        obtain ⟨c, -, hmap⟩ := Option.bind_eq_some_iff.mp hcollecting
        obtain ⟨_, -, rfl⟩ := Option.map_eq_some_iff.mp hmap
        simp
    | kill =>
        obtain ⟨c, hc, rfl⟩ := Option.map_eq_some_iff.mp hcollecting
        intro _
        exact Or.inr ⟨h, _, _, by simp only [Collecting.shown, hc]; rfl⟩
  · intro before unrecorded bookmark after hsplit hverdict
    cases a with
    | start =>
        -- A daemon that starts on a log with a verdict does not reattach.
        simp only [Lifetimes.step, Option.ite_none_right_eq_some] at hstep
        have hnone := (served.reattaches_iff hlaunched hreports).mp hstep.1
        simp only [Collecting.shown, List.append_nil] at hsplit
        obtain ⟨e, he, hsome⟩ := hverdict
        have hmem : e ∈ eventsWritten stream h := by
          rw [hsplit, eventsWritten, linesWritten_append, List.filterMap_append]
          exact List.mem_append_left _ he
        simp [hnone e hmem] at hsome
    | next =>
        obtain ⟨c, hc, -⟩ := Option.bind_eq_some_iff.mp hcollecting
        have hmarks : .killed unrecorded bookmark ∉ Collecting.shown stream s .next := by
          simp [Collecting.shown, hc]
        obtain ⟨rest, hrest⟩ := kill_mem_before hmarks hsplit
        exact absurd hverdict (served.no_kill_after_verdict (by simp [hc]) hrest)
    | cancel =>
        obtain ⟨c, hc, -⟩ := Option.bind_eq_some_iff.mp hcollecting
        obtain ⟨rest, hrest⟩ := kill_mem_before (by simp [Collecting.shown]) hsplit
        exact absurd hverdict (served.no_kill_after_verdict (by simp [hc]) hrest)
    | kill =>
        obtain ⟨c, hc, rfl⟩ := Option.map_eq_some_iff.mp hcollecting
        simp only [Collecting.shown, hc, Option.map_some, Option.toList_some] at hsplit
        rcases List.eq_nil_or_concat after with rfl | ⟨rest, mark, rfl⟩
        · exact ⟨rfl, rfl⟩
        · -- The kill is an earlier one, after which no collection ran.
          have hlonger : h ++ [.killed c.unrecorded s.disk.lastSeqRouted] =
              (before ++ .killed unrecorded bookmark :: rest) ++ [mark] := by
            simpa using hsplit
          have hearlier := (List.append_inj' hlonger rfl).1
          exact absurd hverdict (served.no_kill_after_verdict (by simp [hc]) hearlier)

lemma served_of_run (hnumbered : Numbered stream) (hfresh : d.position = none)
    (hlaunched : reattaches id d.events)
    (hreports : ∀ e ∈ stream.filterMap Line.event?,
      e.kind.lifecycle = none ∨ e.kind.verdict.isSome)
    (run : Run (Lifetimes.step id stream) anyAction (Collecting.shown stream) ⟨d, none⟩ h s) :
    Served stream d h s := by
  refine run.history_invariant (I := fun h s => Served stream d h s)
    (fun _ _ _ _ served _ hstep => served.step hnumbered hlaunched hreports hstep) ?_
  have kept : Kept stream d [] ⟨d, none⟩ := kept_of_run hnumbered hfresh (.nil _)
  exact ⟨kept, fun _ => Or.inl rfl, fun _ _ _ _ hsplit => absurd hsplit (by simp)⟩

/-- A stream read to its end has been written whole. -/
lemma Kept.all_written (kept : Kept stream d h s) (hended : s.Ended) :
    ∀ e ∈ stream.filterMap Line.event?, e ∈ eventsWritten stream h := by
  intro e he
  obtain ⟨line, hline, hevent⟩ := List.mem_filterMap.mp he
  obtain ⟨i, hi, hat⟩ := List.mem_iff_getElem.mp hline
  obtain ⟨done, hdone, tally⟩ := kept.tally
  have hwritten := tally.seen i (hdone.of_ended hended hi) hi
  refine List.mem_filterMap.mpr ⟨i, hwritten, ?_⟩
  rw [List.getElem?_eq_getElem hi, hat, Option.bind_some, hevent]

lemma reports_of_printed {workspace : Except String RoundResult} {branchCarriesWork : Bool}
    {delivered : Delivered} (hprinted : (stream.filterMap Line.event?).map Event.kind =
      readyJobRun workspace branchCarriesWork delivered) :
    ∀ e ∈ stream.filterMap Line.event?, e.kind.lifecycle = none ∨ e.kind.verdict.isSome := by
  intro e he
  obtain ⟨before, verdict, after, hrun, hverdict, hbefore, hafter⟩ :=
    run_shape workspace branchCarriesWork delivered
  have hkind : e.kind ∈ before ++ verdict :: after := by
    rw [← hrun, ← hprinted]
    exact List.mem_map_of_mem he
  rcases List.mem_append.mp hkind with hkind | hkind
  · exact Or.inl (hbefore _ hkind)
  · rcases List.mem_cons.mp hkind with hkind | hkind
    · exact Or.inr (hkind ▸ hverdict)
    · exact Or.inl (hafter _ hkind)

end Reaching

/-- **When everything a launched round reports reaches its log.**  Over every history of daemons
that each reattach exactly when the log says so: the log ends up with every event of the round's
stream if and only if no daemon died with the round's verdict in the log and a later event of it
not. -/
theorem reportsReach_iff (id : ℕ) (workspace : Except String RoundResult)
    (branchCarriesWork : Bool) (delivered : Delivered) (stream : List Line)
    (hnumbered : Numbered stream)
    (hprinted : (stream.filterMap Line.event?).map Event.kind =
      readyJobRun workspace branchCarriesWork delivered)
    (d : RoundDisk) (hfresh : d.position = none) (hlaunched : reattaches id d.events)
    (h : List CollectMark) (s : Collecting)
    (run : Run (Lifetimes.step id stream) anyAction (Collecting.shown stream) ⟨d, none⟩ h s)
    (hfinished : Lifetimes.Finished id s) :
    ReportsReach stream d s ↔
      ∀ before unrecorded bookmark after, h = before ++ .killed unrecorded bookmark :: after →
        KillLosesNothing stream before := by
  have hreports := reports_of_printed hprinted
  have served := served_of_run hnumbered hfresh hlaunched hreports run
  have hevents : s.disk.events = d.events ++ eventsWritten stream h := served.kept.events
  constructor
  · rintro ⟨appended, happended, hall⟩ before unrecorded bookmark after hkill
    obtain rfl : eventsWritten stream h = appended :=
      List.append_cancel_left (hevents.symm.trans happended)
    by_cases hverdict : ∃ e ∈ eventsWritten stream before, e.kind.verdict.isSome
    · obtain ⟨rfl, -⟩ := served.ended _ _ _ _ hkill hverdict
      rw [hkill, eventsWritten_killed] at hall
      exact Or.inr hall
    · push Not at hverdict
      exact Or.inl fun e he => by simpa using hverdict e he
  · intro hkills
    refine ⟨_, hevents, ?_⟩
    rcases hfinished with hended | ⟨hidle, hstays⟩
    · exact served.kept.all_written hended
    · have hjudged : ¬ ∀ e ∈ eventsWritten stream h, e.kind.verdict = none := by
        rw [← served.reattaches_iff hlaunched hreports, hstays]
        simp
      rcases served.idle hidle with rfl | ⟨before, unrecorded, bookmark, rfl⟩
      · exact absurd (by simp [eventsWritten, linesWritten]) hjudged
      · rw [eventsWritten_killed] at hjudged ⊢
        exact (hkills before unrecorded bookmark [] rfl).resolve_left hjudged

/-! ## A pull request lost -/

/-- A round's work, its verdict and its pull request, each in a frame of its own. -/
def deliveredStream : List Line :=
  [⟨"committed", some ⟨1, .event ⟨1, .roundCommitted "5e1f" 1 2 0⟩⟩⟩,
    ⟨"pushed", some ⟨2, .event ⟨2, .branchPushed "assembly/7" "origin"⟩⟩⟩,
    ⟨"passed", some ⟨3, .event ⟨3, .roundPassed⟩⟩⟩,
    ⟨"delivered", some ⟨4, .event ⟨4, .pullRequestOpened "https://github.com/o/r/pull/7"⟩⟩⟩]

/-- The log a launched round starts from. -/
def launchedDisk : RoundDisk where
  events :=
    [⟨0, .roundRequested "https://github.com/o/r" ⟨"main", "c0de"⟩ "fix it" "claude"⟩,
      ⟨0, .roundStarted 1⟩, ⟨0, .roundLaunched (.docker "assembly-7-1")⟩]
  output := []
  position := none

lemma deliveredStream_printed : (deliveredStream.filterMap Line.event?).map Event.kind =
    readyJobRun (.ok (.passedWithWork ⟨"assembly/7", "5e1f", ⟨1, 2, 0⟩, "origin"⟩)) true
      (.opened "https://github.com/o/r/pull/7") := by decide

/-- What a daemon killed right after the verdict leaves. -/
def judgedDisk : RoundDisk where
  events := launchedDisk.events ++
    [⟨1, .roundCommitted "5e1f" 1 2 0⟩, ⟨2, .branchPushed "assembly/7" "origin"⟩, ⟨3, .roundPassed⟩]
  output := []
  position := some 3

/-- **The pull request of a round whose daemon was killed between the verdict and the pull request
is in no log.** -/
theorem pullRequest_lost_by_kill :
    exec (Lifetimes.step 7 deliveredStream) ⟨launchedDisk, none⟩
        [.start, .next, .next, .next, .next, .next, .next, .kill] = some ⟨judgedDisk, none⟩ ∧
      Lifetimes.Finished 7 ⟨judgedDisk, none⟩ ∧
      ¬ ReportsReach deliveredStream launchedDisk ⟨judgedDisk, none⟩ := by
  refine ⟨rfl, Or.inr ⟨rfl, rfl⟩, ?_⟩
  rintro ⟨appended, happended, hall⟩
  have hlost := hall ⟨4, .pullRequestOpened "https://github.com/o/r/pull/7"⟩ (by decide)
  have hshort := List.append_cancel_left happended
  rw [← hshort] at hlost
  exact absurd hlost (by decide)

/-- Killed before the verdict, and collected to its end by the next daemon. -/
def killedEarly : List CollectAction :=
  [.start, .next, .next, .next, .kill, .start, .next, .next, .next, .next, .next, .next, .next]

/-- A round whose daemon was killed before the verdict loses nothing. -/
theorem reportsReach_killed_early : ∃ s,
    exec (Lifetimes.step 7 deliveredStream) ⟨launchedDisk, none⟩ killedEarly = some s ∧
      ReportsReach deliveredStream launchedDisk s := by
  refine ⟨_, rfl, ?_⟩
  have run : Run (Lifetimes.step 7 deliveredStream) anyAction (Collecting.shown deliveredStream)
      ⟨launchedDisk, none⟩
      [.wrote 0, .wrote 1, .killed (some 2) 1, .wrote 1, .wrote 2, .wrote 3] _ :=
    .of_exec (rfl : exec _ _ killedEarly = some _)
  refine (reportsReach_iff 7 _ _ _ deliveredStream (by decide) deliveredStream_printed launchedDisk
    rfl rfl _ _ run (Or.inl ⟨_, rfl, rfl, rfl⟩)).mpr ?_
  clear run
  intro before unrecorded bookmark after hsplit
  -- The only kill stands third.
  rcases before with _ | ⟨m₁, _ | ⟨m₂, _ | ⟨m₃, _ | ⟨m₄, _ | ⟨m₅, _ | ⟨m₆, before⟩⟩⟩⟩⟩⟩ <;>
    simp at hsplit
  obtain ⟨rfl, rfl, -⟩ := hsplit
  exact Or.inl (by decide)

end AssemblyLine
