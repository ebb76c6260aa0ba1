import AssemblyLine.Daemon.Places
import AssemblyLine.Framework.Queue

/-!
# The order of the line

`Daemon.lineView` is the line of a daemon's jobs as a line of names, and `lineMove_of_step` says
that every step of a daemon is one of the things that can happen to such a line, as long as the
dispatcher throws no queued job's last place away and lets no job jump ahead.  Rounds are then
registered in the order their requests are put in line (`rounds_in_line_order`).

A job jumps ahead when it was cancelled in line and then revised: its first place is still there,
and what the dispatcher launches from it is the new request, which stands behind everybody
(`revised_job_jumps_ahead`).
-/

namespace AssemblyLine

/-- The job the dispatcher has received and not yet looked at. -/
def Dispatcher.called : Dispatcher → List JobAddress
  | .waiting a => [a]
  | .looking a => [a]
  | .receiving => []
  | .registered _ => []
  | .counted _ => []
  | .returned => []

namespace Daemon

/-- The jobs in line, first the one in the dispatcher's hands. -/
def line (d : Daemon) : List JobAddress := d.dispatcher.called ++ d.queue.pending

/-- Whether `a`'s request is about to be put in line, by its submit or by a starting daemon. -/
def joining (cfg : Config) (d : Daemon) (a : JobAddress) : Prop :=
  d.aboutToEnqueue cfg a ∨ d.owes a = some .requeue

/-- Whether `a` is queued, and no round of it has a lifecycle event to come. -/
def waiting (cfg : Config) (root : Root) (d : Daemon) (a : JobAddress) : Prop :=
  standing (root.events a) = some .requested ∧ (d.view cfg root a).Unattended

/-- A daemon's jobs and their line. -/
def lineView (cfg : Config) (root : Root) (d : Daemon) : LineView JobAddress where
  asked a := requestsIn (root.events a)
  queued a := standing (root.events a) = some .requested
  waiting := d.waiting cfg root
  joining := d.joining cfg
  line := d.line
  ended := d.dispatcher = .returned
  queued_of_waiting _ h := h.1

/-- Whether the dispatcher is about to register the round of a request that is not next in line:
the request is not in line yet, or its job has another place, behind a queued job without a round
whose own request is in line. -/
def jumpsAhead (cfg : Config) (root : Root) (d : Daemon) : Bool :=
  match d.dispatcher with
  | .looking b =>
    (d.queue.registerIfStillQueued b (root.report b) d.nextToken).isSome &&
      (decide (d.aboutToEnqueue cfg b) ||
        decide (b ∈ d.queue.pending) && (d.queue.pending.dedup.takeWhile (· ≠ b)).any fun a =>
          decide ((root.report a).state = .queued ∧ ¬ d.roundToStart root a ∧
            ¬ d.aboutToEnqueue cfg a))
  | _ => false

/-- The steps in which the dispatcher throws no queued job's last place away and lets no job jump
ahead. -/
def keepsOrder (cfg : Config) (s : Root × Daemon) : DaemonAction → Bool
  | .look => !s.2.discardsLastPlace cfg s.1 && !s.2.jumpsAhead cfg s.1
  | _ => true

/-- What a step does to a request: puts it in line, registers its round, or closes it. -/
def lineShown (cfg : Config) (s : Root × Daemon) : DaemonAction → List (LineMark JobAddress)
  | .requeue =>
    match s.2.startup with
    | .resuming [] (a :: _) => [.enqueued a (requestsIn (s.1.events a))]
    | _ => []
  | .enqueue key =>
    match s.2.submits key with
    | some (.recorded id) =>
      [.enqueued (cfg.address key id) (requestsIn (s.1.events (cfg.address key id)))]
    | _ => []
  | .look =>
    match s.2.dispatcher with
    | .looking a =>
      if (s.2.queue.registerIfStillQueued a (s.1.report a) s.2.nextToken).isSome then
        [.registered a (requestsIn (s.1.events a))]
      else []
    | _ => []
  | .cancel a _ =>
    if s.2.queue.cancel a (a ∈ s.1.jobDirs) (s.1.report a) = .closes then
      [.closed a (requestsIn (s.1.events a))]
    else []
  | _ => []

end Daemon

/-! ## What a step leaves of the jobs and the line -/

section Steps

variable {cfg : Config} {root root' : Root} {d d' : Daemon} {token : Token} {t : RoundTask}
  {a b : JobAddress}

lemma registerIfStillQueued_isSome {queue : JobQueue} {report : JobReport} :
    (queue.registerIfStillQueued b report token).isSome = true ↔
      report.state = .queued ∧ queue.alreadyLaunched b report = false := by
  simp only [JobQueue.registerIfStillQueued, Option.isSome_ite]

/-- What a step carries over when it changes no log and no round of the jobs it leaves alone. -/
lemma Daemon.carries {others : JobAddress → Prop}
    (events : ∀ a, others a → root'.events a = root.events a)
    (crew : ∀ a, others a → d'.crew a = d.crew a)
    (joining : ∀ a, others a → (d'.joining cfg a ↔ d.joining cfg a))
    (ended : d.dispatcher = .returned → d'.dispatcher = .returned) :
    (d.lineView cfg root).Carries (d'.lineView cfg root') others where
  asked a ha := by
    show requestsIn (root'.events a) = requestsIn (root.events a)
    rw [events a ha]
  queued a ha := by
    show standing (root'.events a) = some .requested → standing (root.events a) = some .requested
    rw [events a ha]
    exact id
  waiting a ha := by
    rintro ⟨hs, hunattended⟩
    refine ⟨?_, ?_⟩
    · rw [events a ha]
      exact hs
    · intro token m hm
      refine hunattended token m ?_
      show d.crew a token = some m
      rw [← crew a ha]
      exact hm
  joining := joining
  ended := ended

/-- What is about to be put in line depends on the submits and the startup alone. -/
lemma Daemon.joining_congr (hsubmits : d'.submits = d.submits) (hstartup : d'.startup = d.startup) :
    d'.joining cfg a ↔ d.joining cfg a := by
  rw [Daemon.joining, Daemon.joining, Daemon.aboutToEnqueue, Daemon.aboutToEnqueue, Daemon.owes,
    Daemon.owes, hsubmits, hstartup]

/-- A step that only moves the dispatcher, or signals. -/
lemma Daemon.carries_of_same (hcrew : ∀ a, d'.crew a = d.crew a) (hsubmits : d'.submits = d.submits)
    (hstartup : d'.startup = d.startup)
    (hover : d.dispatcher = .returned → d'.dispatcher = .returned) :
    (d.lineView cfg root).Carries (d'.lineView cfg root) fun _ => True :=
  Daemon.carries (fun _ _ => rfl) (fun a _ => hcrew a)
    (fun _ _ => Daemon.joining_congr hsubmits hstartup) hover

/-- A submit's step that neither records a request nor puts one in line. -/
lemma Daemon.carries_of_submit {key : RepoKey} {submit : Option Submit}
    (hbefore : ∀ id, d.submits key ≠ some (.recorded id))
    (hafter : ∀ id, submit ≠ some (.recorded id))
    (hevents : root'.events = root.events) :
    (d.lineView cfg root).Carries ((d.setSubmit key submit).lineView cfg root') fun _ => True := by
  refine Daemon.carries (fun a _ => by rw [hevents]) (fun _ _ => rfl) ?_ id
  intro a _
  refine or_congr (and_congr_right fun _ => ?_) Iff.rfl
  rw [Daemon.setSubmit_submits]
  by_cases hkey : a.key = key
  · rw [hkey, Function.update_self]
    exact iff_of_false (hafter a.id) (hbefore a.id)
  · rw [Function.update_of_ne hkey]

/-- Paying a job what is not a place in line. -/
lemma Daemon.joining_of_paid (inv : DaemonInv cfg root d) {r : Resumption}
    {others : List (JobAddress × Resumption)} {requeued : List JobAddress}
    (startup : d.startup = .resuming ((b, r) :: others) requeued) (hne : r ≠ .requeue)
    (hsubmits : d'.submits = d.submits) (hstartup : d'.startup = .resuming others requeued) :
    d'.joining cfg a ↔ d.joining cfg a := by
  refine or_congr ?_ ?_
  · rw [Daemon.aboutToEnqueue, Daemon.aboutToEnqueue, hsubmits]
  · rw [Daemon.owes, Daemon.owes, startup, hstartup]
    by_cases ha : a = b
    · obtain ⟨hhead, hself⟩ := Startup.owes_head (inv.once _ _ startup)
      rw [ha, hhead, hself]
      exact iff_of_false (by simp) (by simpa using hne)
    · rw [Startup.owes_tail ha]

/-- Only a submit records a request. -/
lemma JobMove.asked_of {id : ℕ} {v v' : JobView} (hmove : JobMove id v v') :
    requestsIn v'.events = requestsIn v.events ∨ (v.submitting = true ∧ v'.submitting = false) := by
  cases hmove with
  | progress e reports => exact .inl (JobInv.requestsIn_snoc v (by simp [reports]))
  | request e asks admitted => exact .inr ⟨admitted, rfl⟩
  | close e fails open_ unattended => exact .inl (JobInv.requestsIn_snoc v (by simp [fails]))
  | advance token m stage e mine working letter legal numbered =>
      refine .inl (JobInv.requestsIn_snoc v ?_)
      intro hasks
      cases hstage : m.stage <;>
        simp [hstage, Standing.afterEvent, hasks, Stage.standing, Standing.after] at legal working
  | _ => exact .inl rfl

/-- A task past its last lifecycle event stays so, and leaves its job where it stands. -/
lemma TaskEffect.over (effect : TaskEffect root d token t root' d')
    (hfailing : ∀ stage reason, t.phase = .failing stage reason → stage ≠ .over)
    (hover : t.phase.stage = .over) :
    standing (root'.events t.address) = standing (root.events t.address) ∧
      ∀ t', d'.tasks token = some t' → t'.phase.stage = .over := by
  have hput : ∀ t' t'' : RoundTask, Function.update d.tasks token (some t') token = some t'' →
      t'.phase.stage = .over → t''.phase.stage = .over := by
    intro t' t'' h hstage
    rw [Function.update_self] at h
    rwa [← Option.some.inj h]
  cases effect with
  | proceeds phase same held holds lived lives fails cancels =>
      exact ⟨rfl, fun t' h => hput _ t' h (same.trans hover)⟩
  | opens stream phase opening opened counted =>
      rw [opening] at hover
      cases hover
  | appends now due isDue =>
      exact absurd hover (Daemon.advance_of_due hfailing isDue now).1
  | collects c c' disk collecting next =>
      have hjudged : c.judged = true := by
        by_contra hunjudged
        rw [collecting, Daemon.stage_collecting, if_neg hunjudged] at hover
        cases hover
      have hphase : c'.judged = c.judged → (RoundPhase.collecting c').stage = .over := by
        intro hsame
        rw [Daemon.stage_collecting, hsame, if_pos hjudged]
      rw [Daemon.writeRound_events, if_pos rfl]
      cases RoundCollection.logEffect_of_next next with
      | none same judged =>
          rw [same]
          exact ⟨rfl, fun t' h => hput _ t' h (hphase judged)⟩
      | progress e appended reports judged =>
          rw [appended]
          exact ⟨standing_snoc_of_progress reports, fun t' h => hput _ t' h (hphase judged)⟩
      | verdict e appended isVerdict unjudged judged =>
          rw [hjudged] at unjudged
          cases unjudged
  | abandons waits held lived why =>
      rw [hover] at waits
      cases waits
  | dropsLaunching returned counted => exact ⟨rfl, fun t' h => hput _ t' h hover⟩
  | dropsRegistration returned uncounted => exact ⟨rfl, fun t' h => hput _ t' h rfl⟩
  | dropsSlot deregistered =>
      refine ⟨rfl, ?_⟩
      intro t' h
      simp at h

/-- A step of a round's task records no request, and takes up no job that waits. -/
lemma TaskEffect.carries (effect : TaskEffect root d token t root' d') (inv : DaemonInv cfg root d)
    (ht : d.tasks token = some t) :
    (d.lineView cfg root).Carries (d'.lineView cfg root') fun _ => True := by
  have hframe := effect.frame
  have hsubmitting : ∀ a, ¬((d.view cfg root a).submitting = true ∧
      (d'.view cfg root' a).submitting = false) := by
    rintro a ⟨hon, hoff⟩
    have hsame : (d'.view cfg root' a).submitting = (d.view cfg root a).submitting := by
      simp only [Daemon.view, Daemon.admits, hframe.submits]
    rw [hsame, hon] at hoff
    cases hoff
  refine ⟨?_, ?_, ?_, fun a _ => Daemon.joining_congr hframe.submits hframe.startup, ?_⟩
  · intro a _
    exact (effect.moves inv ht a).asked_of.resolve_right (hsubmitting a)
  · intro a _ hs
    exact ((effect.moves inv ht a).requested_of (inv.job a) hs).resolve_right (hsubmitting a)
  · rintro a - ⟨hs, hunattended⟩
    obtain ⟨changed, htasks, hchanged⟩ := hframe.task
    have hover : t.address = a → t.phase.stage = .over := by
      rintro rfl
      exact hunattended token t.crewman (Daemon.crew_of_task ht)
    refine ⟨?_, ?_⟩
    · by_cases ha : a = t.address
      · subst ha
        rw [(effect.over (inv.failing token t · · ht) (hover rfl)).1]
        exact hs
      · rw [hframe.events a ha]
        exact hs
    · intro token' m' hm'
      obtain ⟨t', ht', rfl, rfl⟩ := Daemon.task_of_crew hm'
      by_cases htoken : token' = token
      · subst htoken
        have haddress : t'.address = t.address := by
          rw [htasks, Function.update_self] at ht'
          exact (hchanged t' ht').1
        exact (effect.over (inv.failing token' t · · ht) (hover haddress.symm)).2 t' ht'
      · rw [htasks, Function.update_of_ne htoken] at ht'
        exact hunattended token' t'.crewman (Daemon.crew_of_task ht')
  · intro hover
    exact hframe.dispatcher.trans hover

/-- What the dispatcher registers is the first in line, and nobody who waits is ahead of it. -/
lemma DaemonInv.ahead_of_keepsOrder (inv : DaemonInv cfg root d)
    (looking : d.dispatcher = .looking b)
    (hserving : d.isServing = true) (queued : (root.report b).state = .queued)
    (free : d.queue.alreadyLaunched b (root.report b) = false)
    (hkeeps : d.jumpsAhead cfg root = false) :
    ¬ d.joining cfg b ∧ (b ∈ d.queue.pending →
      ∀ a ∈ d.queue.pending.dedup.takeWhile (· ≠ b), d.waiting cfg root a → d.joining cfg a) := by
  have hregisters : (d.queue.registerIfStillQueued b (root.report b) d.nextToken).isSome = true :=
    registerIfStillQueued_isSome.mpr ⟨queued, free⟩
  simp only [Daemon.jumpsAhead, looking, hregisters, Bool.true_and, Bool.or_eq_false_iff,
    decide_eq_false_iff_not, Bool.and_eq_false_iff] at hkeeps
  obtain ⟨habout, hline⟩ := hkeeps
  refine ⟨?_, ?_⟩
  · rintro (h | howes)
    · exact habout h
    · rw [Daemon.owes_of_serving hserving] at howes
      cases howes
  · rintro hagain a ha ⟨hs, hunattended⟩
    have hnone := List.any_eq_false.mp (hline.resolve_left (not_not.mpr hagain)) a ha
    have hqueued : (root.report a).state = .queued := (queued_iff_of_standing hs).mpr rfl
    have hround : ¬ d.roundToStart root a := by
      rw [inv.roundToStart_iff]
      rintro ⟨token, m, hm, hstage⟩
      rw [hunattended token m hm] at hstage
      cases hstage
    left
    by_contra habout
    exact hnone (decide_eq_true ⟨hqueued, hround, habout⟩)

/-- A place in line that is thrown away is not the last of a job that waits. -/
lemma DaemonInv.placed_of_keepsOrder (inv : DaemonInv cfg root d)
    (looking : d.dispatcher = .looking b)
    (why : (root.report b).state = .queued → d.queue.alreadyLaunched b (root.report b) = true)
    (hkeeps : d.discardsLastPlace cfg root = false) (hwaits : d.waiting cfg root b)
    (hjoined : ¬ d.joining cfg b) : b ∈ d.queue.pending := by
  obtain ⟨hs, hunattended⟩ := hwaits
  rcases inv.placed_of_skipped looking why hkeeps hs with hline | habout | ⟨token, m, hm, hstage⟩
  · exact hline
  · exact absurd (.inl habout) hjoined
  · rw [hunattended token m hm] at hstage
    cases hstage

/-- A round taken up again is not one of a job that waits. -/
lemma DaemonInv.carries_of_reattach (inv : DaemonInv cfg root d) {round : ℕ} {handle : RoundHandle}
    {others : List (JobAddress × Resumption)} {requeued : List JobAddress}
    (startup : d.startup = .resuming ((b, .reattach round handle) :: others) requeued)
    (htasks : d'.tasks = Function.update d.tasks d.nextToken
      (some ⟨b, round, requestsIn (root.events b), false, .reattaching handle⟩))
    (hsubmits : d'.submits = d.submits) (hstartup : d'.startup = .resuming others requeued)
    (hdispatcher : d'.dispatcher = d.dispatcher) :
    (d.lineView cfg root).Carries (d'.lineView cfg root) fun _ => True := by
  refine ⟨fun _ _ => rfl, fun _ _ h => h, ?_, ?_, hdispatcher.trans⟩
  · rintro a - ⟨hs, hunattended⟩
    have hne : b ≠ a := by
      rintro rfl
      have hlaunched := (launched_of_owed hs (inv.owed_of_startup startup)).1
      cases hlaunched
    refine ⟨hs, ?_⟩
    intro token m hm
    refine hunattended token m ?_
    show d.crew a token = some m
    rw [← inv.crew_of_added htasks hne]
    exact hm
  · intro a _
    exact Daemon.joining_of_paid inv startup (by simp) hsubmits hstartup

/-- Nor is a round lost while launching, which is closed. -/
lemma DaemonInv.carries_of_closeLost (inv : DaemonInv cfg root d) {round : ℕ}
    {others : List (JobAddress × Resumption)} {requeued : List JobAddress}
    (startup : d.startup = .resuming ((b, .lostWhileLaunching round) :: others) requeued)
    (now : Instant) :
    (d.lineView cfg root).Carries
      (Daemon.lineView cfg (root.append b now (.roundFailed (lostWhileLaunching b.id)))
        { d with startup := .resuming others requeued }) fun _ => True := by
  have hstarted : standing (root.events b) = some .started := by
    obtain ⟨s, hs⟩ := (inv.job b).stands
    obtain rfl := started_of_owed hs (inv.owed_of_startup startup)
    exact hs
  have hidle := standing_snoc_failed hstarted (by simp) now (lostWhileLaunching b.id)
  refine ⟨?_, ?_, ?_, ?_, fun h => h⟩
  · intro a _
    show requestsIn ((root.append b now _).events a) = requestsIn (root.events a)
    rw [Daemon.append_events]
    split
    · rw [requestsIn_append, requestsIn_singleton]
      rfl
    · rfl
  · intro a _ hs
    have hrequested : standing ((root.append b now _).events a) = some .requested := hs
    rw [Daemon.append_events] at hrequested
    split at hrequested
    · rename_i ha
      rw [ha, hidle] at hrequested
      cases hrequested
    · exact hrequested
  · rintro a - ⟨hs, hunattended⟩
    refine ⟨?_, hunattended⟩
    rw [Daemon.append_events]
    split
    · rename_i ha
      rw [ha, hstarted] at hs
      cases hs
    · exact hs
  · intro a _
    exact Daemon.joining_of_paid inv startup (by simp) rfl rfl

/-- A job put in line by a starting daemon. -/
lemma DaemonInv.lineMove_requeue (inv : DaemonInv cfg root d)
    (early : d.isServing = false → ∀ key, d.submits key = none) {requeued : List JobAddress}
    (startup : d.startup = .resuming [] (b :: requeued))
    (hqueue : d'.queue.pending = d.queue.pending ++ [b])
    (hdispatcher : d'.dispatcher = d.dispatcher)
    (htasks : d'.tasks = d.tasks) (hsubmits : d'.submits = d.submits)
    (hstartup : d'.startup = .resuming [] requeued) :
    LineMove (d.lineView cfg root) (d'.lineView cfg root)
      [.enqueued b (requestsIn (root.events b))] := by
  have honce : (b :: requeued).Nodup := by simpa using inv.once _ _ startup
  have hnobody : ∀ a, ¬ d.aboutToEnqueue cfg a := by
    rintro a ⟨-, hrecorded⟩
    rw [early (by rw [Daemon.isServing, startup])] at hrecorded
    cases hrecorded
  obtain ⟨hhead, hself⟩ := Startup.owes_requeued honce
  refine .joins b (Daemon.carries (fun _ _ => rfl) (fun a _ => Daemon.crew_congr htasks a) ?_ ?_)
    ?_ ?_
    rfl id ?_ ?_
  · intro a ha
    refine or_congr (by rw [Daemon.aboutToEnqueue, Daemon.aboutToEnqueue, hsubmits]) ?_
    rw [Daemon.owes, Daemon.owes, startup, hstartup, Startup.owes_requeued_tail ha]
  · intro hover
    exact hdispatcher.trans hover
  · show d'.line = d.line ++ [b]
    rw [Daemon.line, Daemon.line, hdispatcher, hqueue, List.append_assoc]
  · right
    rw [Daemon.owes, startup, hhead]
  · rintro ⟨hs, hunattended⟩
    refine ⟨hs, ?_⟩
    intro token m hm
    refine hunattended token m ?_
    show d.crew b token = some m
    rw [← Daemon.crew_congr htasks]
    exact hm
  · rintro (habout | howes)
    · rw [Daemon.aboutToEnqueue, hsubmits] at habout
      exact hnobody b habout
    · rw [Daemon.owes, hstartup, hself] at howes
      cases howes

/-- A submit's request is recorded: its job asks again. -/
lemma DaemonInv.lineMove_record (inv : DaemonInv cfg root d) {key : RepoKey} {submit : Submit}
    {id : ℕ}
    (holds : d.submits key = some submit) (admitted : submit.admitted = some id) (now : Instant)
    (request : RoundRequest) :
    LineMove (d.lineView cfg root)
      ((d.setSubmit key (some (.recorded id))).lineView cfg (root.append (cfg.address key id) now
        (.roundRequested request.remoteUrl request.base request.prompt request.provider))) [] := by
  have hsubmitting : (d.view cfg root (cfg.address key id)).submitting = true := by
    show d.admits cfg (cfg.address key id) = true
    simp [Daemon.admits, Config.address, holds, admitted]
  have hidle := (inv.job (cfg.address key id)).submits hsubmitting
  have hover := (inv.job (cfg.address key id)).unattended_of_idle hidle
  refine .asks (cfg.address key id)
    (Daemon.carries ?_ (fun _ _ => rfl) ?_ fun h => h) rfl ?_ ?_ ?_ ?_
  · intro a ha
    rw [Daemon.append_events, if_neg ha]
  · intro a ha
    refine or_congr (and_congr_right fun haddress => ?_) Iff.rfl
    rw [Daemon.setSubmit_submits]
    by_cases hkey : a.key = key
    · rw [hkey, Function.update_self, holds]
      refine iff_of_false ?_ ?_
      · intro h
        refine ha ?_
        rw [← haddress, hkey, Submit.recorded.inj (Option.some.inj h)]
      · intro h
        rw [Option.some.inj h] at admitted
        cases admitted
    · rw [Function.update_of_ne hkey]
  · intro hs
    have hrequested : standing (root.events (cfg.address key id)) = some .requested := hs
    exact absurd (hrequested.symm.trans hidle) (by simp)
  · show requestsIn _ = requestsIn _ + 1
    rw [Daemon.append_events, if_pos rfl, requestsIn_append, requestsIn_singleton]
    rfl
  · refine ⟨?_, hover⟩
    rw [Daemon.append_events, if_pos rfl]
    exact standing_snoc_of hidle rfl
  · exact .inl ⟨rfl, Function.update_self _ _ _⟩

/-- A submit puts its job in line. -/
lemma Daemon.lineMove_enqueue {key : RepoKey} {id : ℕ} (serving : d.isServing = true)
    (recorded : d.submits key = some (.recorded id)) :
    LineMove (d.lineView cfg root)
      (Daemon.lineView cfg root
        { d.setSubmit key none with queue := d.queue.enqueue (cfg.address key id) })
      [.enqueued (cfg.address key id) (requestsIn (root.events (cfg.address key id)))] := by
  refine .joins (cfg.address key id)
    (Daemon.carries (fun _ _ => rfl) (fun _ _ => rfl) ?_ fun h => h)
    ?_ (.inl ⟨rfl, recorded⟩) rfl (fun h => h) (fun h => h) ?_
  · intro a ha
    refine or_congr (and_congr_right fun haddress => ?_) Iff.rfl
    show Function.update d.submits key none a.key = _ ↔ _
    by_cases hkey : a.key = key
    · rw [hkey, Function.update_self, recorded]
      refine iff_of_false (by simp) ?_
      intro h
      refine ha ?_
      rw [← haddress, hkey, Submit.recorded.inj (Option.some.inj h)]
    · rw [Function.update_of_ne hkey]
  · show d.dispatcher.called ++ (d.queue.pending ++ [cfg.address key id]) = _
    rw [← List.append_assoc]
    rfl
  · rintro (⟨-, hrecorded⟩ | howes)
    · have hnone : Function.update d.submits key none key = some (.recorded id) := hrecorded
      rw [Function.update_self] at hnone
      cases hnone
    · have hpaid : d.owes (cfg.address key id) = some .requeue := howes
      rw [Daemon.owes_of_serving serving] at hpaid
      cases hpaid

/-- A cancel closes a request that waits. -/
lemma DaemonInv.lineMove_close (inv : DaemonInv cfg root d)
    (queued : (root.report b).state = .queued)
    (now : Instant) (reason : String) :
    LineMove (d.lineView cfg root) (d.lineView cfg (root.append b now (.roundFailed reason)))
      [.closed b (requestsIn (root.events b))] := by
  have hstands := inv.requested_of_queued queued
  refine .closes b (Daemon.carries ?_ (fun _ _ => rfl) (fun _ _ => Iff.rfl) fun h => h)
    rfl ?_ ?_ Iff.rfl
  · intro a ha
    rw [Daemon.append_events, if_neg ha]
  · show requestsIn _ = requestsIn _
    rw [Daemon.append_events, if_pos rfl, requestsIn_append, requestsIn_singleton]
    rfl
  · intro hs
    have hrequested : standing ((root.append b now (.roundFailed reason)).events b) =
        some .requested := hs
    rw [Daemon.append_events, if_pos rfl, standing_snoc_failed hstands (by simp)] at hrequested
    cases hrequested

/-- The dispatcher registers the first in line. -/
lemma DaemonInv.lineMove_register (inv : DaemonInv cfg root d) (serving : d.isServing = true)
    (looking : d.dispatcher = .looking b) (queued : (root.report b).state = .queued)
    (free : d.queue.alreadyLaunched b (root.report b) = false)
    (hkeeps : d.jumpsAhead cfg root = false) :
    LineMove (d.lineView cfg root)
      (Daemon.lineView cfg root
        { d.addTask (d.queue.register b ((root.report b).rounds + 1) d.nextToken)
            ⟨b, (root.report b).rounds + 1, requestsIn (root.events b), false, .registered⟩ with
          dispatcher := .registered d.nextToken })
      [.registered b (requestsIn (root.events b))] := by
  obtain ⟨hjoined, hahead⟩ := inv.ahead_of_keepsOrder looking serving queued free hkeeps
  have hstands := inv.requested_of_queued queued
  have hover : (d.view cfg root b).Unattended :=
    (inv.job b).unattended_of_free hstands (free_of_alreadyLaunched queued free)
  refine .registers b (Daemon.carries (fun _ _ => rfl) ?_ (fun _ _ => Iff.rfl) ?_) ?_ rfl
    ⟨hstands, hover⟩ hjoined hjoined ?_ hahead
  · intro a ha
    exact inv.crew_of_added (t := ⟨b, (root.report b).rounds + 1, requestsIn (root.events b), false,
      .registered⟩) rfl (Ne.symm ha)
  · intro h
    rw [looking] at h
    cases h
  · show d.dispatcher.called ++ d.queue.pending = b :: d.queue.pending
    rw [looking]
    rfl
  · intro h
    have hreturned : d.dispatcher = .returned := h
    rw [looking] at hreturned
    cases hreturned

/-- **What a step of a daemon is to the line**, when it throws no waiting job's last place away and
lets no job jump ahead. -/
theorem lineMove_of_effect {act : DaemonAction} (effect : DaemonEffect cfg root d act root' d')
    (inv : DaemonInv cfg root d) (early : d.isServing = false → ∀ key, d.submits key = none)
    (hkeeps : Daemon.keepsOrder cfg (root, d) act = true) :
    LineMove (d.lineView cfg root) (d'.lineView cfg root')
      (Daemon.lineShown cfg (root, d) act) := by
  cases effect with
  | reattaches now b round handle others requeued startup =>
      exact .idle (inv.carries_of_reattach startup rfl rfl rfl rfl) rfl
  | closesLost now b round others requeued startup =>
      exact .idle (inv.carries_of_closeLost startup now) rfl
  | passesOver now b others requeued startup =>
      exact absurd rfl (inv.others _ _ startup _ List.mem_cons_self)
  | requeues b requeued startup =>
      have hshown : Daemon.lineShown cfg (root, d) .requeue =
          [.enqueued b (requestsIn (root.events b))] := by
        simp only [Daemon.lineShown, startup]
      rw [hshown]
      exact inv.lineMove_requeue early startup rfl rfl rfl rfl rfl
  | serves startup =>
      refine .idle (Daemon.carries (fun _ _ => rfl) (fun _ _ => rfl) ?_ fun h => h) rfl
      intro a _
      refine or_congr Iff.rfl ?_
      rw [Daemon.owes, Daemon.owes, startup]
      exact iff_of_false (by simp [Startup.owes]) (by simp [Startup.owes])
  | holds key submission serving free =>
      exact .idle (Daemon.carries_of_submit (by simp [free]) (by simp) rfl) rfl
  | continues key submission id provider serving holding idle =>
      exact .idle (Daemon.carries_of_submit (by simp [holding]) (by simp) rfl) rfl
  | creates key id submission serving holding new =>
      exact .idle (Daemon.carries_of_submit (by simp [holding]) (by simp) rfl) rfl
  | records key now base configured submit id request serving holds admitted =>
      exact inv.lineMove_record holds admitted now request
  | enqueues key id serving recorded =>
      have hshown : Daemon.lineShown cfg (root, d) (.enqueue key) =
          [.enqueued (cfg.address key id) (requestsIn (root.events (cfg.address key id)))] := by
        simp only [Daemon.lineShown, recorded]
      rw [hshown]
      exact Daemon.lineMove_enqueue serving recorded
  | refuses key submit serving holds unrecorded =>
      refine .idle (Daemon.carries_of_submit ?_ (by simp) rfl) rfl
      intro id hrecorded
      rw [holds, Option.some.injEq] at hrecorded
      exact unrecorded id hrecorded
  | fires b now token serving does =>
      have hshown : Daemon.lineShown cfg (root, d) (.cancel b now) = [] := by
        simp only [Daemon.lineShown, does]
        rfl
      rw [hshown]
      exact .idle (Daemon.carries_of_same (fun _ => rfl) rfl rfl fun h => h) rfl
  | closes b now serving queued free does =>
      have hshown : Daemon.lineShown cfg (root, d) (.cancel b now) =
          [.closed b (requestsIn (root.events b))] := by
        simp only [Daemon.lineShown, does, if_pos]
      rw [hshown]
      exact inv.lineMove_close queued now _
  | cancelsNothing b now because serving does =>
      have hshown : Daemon.lineShown cfg (root, d) (.cancel b now) = [] := by
        simp only [Daemon.lineShown, does]
        rfl
      rw [hshown]
      exact .idle (Daemon.carries_of_same (fun _ => rfl) rfl rfl fun h => h) rfl
  | stopsLaunching serving =>
      exact .idle (Daemon.carries_of_same (fun _ => rfl) rfl rfl fun h => h) rfl
  | receives b pending serving receiving first =>
      refine .idle (Daemon.carries_of_same (fun _ => rfl) rfl rfl (by simp [receiving])) ?_
      show [b] ++ pending = d.dispatcher.called ++ d.queue.pending
      rw [receiving, first]
      rfl
  | findsSlot b serving waiting free =>
      refine .idle (Daemon.carries_of_same (fun _ => rfl) rfl rfl (by simp [waiting])) ?_
      show [b] ++ d.queue.pending = d.dispatcher.called ++ d.queue.pending
      rw [waiting]
      rfl
  | registers b serving looking queued free =>
      have hshown : Daemon.lineShown cfg (root, d) .look =
          [.registered b (requestsIn (root.events b))] := by
        simp only [Daemon.lineShown, looking]
        rw [if_pos (registerIfStillQueued_isSome.mpr ⟨queued, free⟩)]
      rw [hshown]
      simp only [Daemon.keepsOrder, Bool.and_eq_true, Bool.not_eq_true'] at hkeeps
      exact inv.lineMove_register serving looking queued free hkeeps.2
  | skips b serving looking why =>
      have hshown : Daemon.lineShown cfg (root, d) .look = [] := by
        simp only [Daemon.lineShown, looking]
        rw [if_neg]
        rw [registerIfStillQueued_isSome]
        rintro ⟨hqueued, hfree⟩
        rw [why hqueued] at hfree
        cases hfree
      rw [hshown]
      simp only [Daemon.keepsOrder, Bool.and_eq_true, Bool.not_eq_true'] at hkeeps
      refine .skips b (Daemon.carries_of_same (fun _ => rfl) rfl rfl (by simp [looking])) ?_
        fun hwaits hjoined => inv.placed_of_keepsOrder looking why hkeeps.1 hwaits hjoined
      show d.dispatcher.called ++ d.queue.pending = b :: d.queue.pending
      rw [looking]
      rfl
  | counts token t serving registered mine =>
      refine .idle (Daemon.carries_of_same (fun _ => Daemon.crew_update_same
        (Daemon.setTask_tasks d token { t with launching := true }) mine rfl rfl) rfl rfl
          (by simp [registered])) ?_
      show d.queue.pending = d.dispatcher.called ++ d.queue.pending
      rw [registered]
      rfl
  | spawns token t serving counted mine =>
      have hcrewman := Daemon.crewman_of_spawned inv.toTasksInv counted mine
      refine .idle (Daemon.carries_of_same (fun _ => Daemon.crew_update_same
        (Daemon.setTask_tasks d token { t with phase := .reading }) mine rfl hcrewman) rfl rfl
          (by simp [counted])) ?_
      show d.queue.pending = d.dispatcher.called ++ d.queue.pending
      rw [counted]
      rfl
  | returns serving idle stopping =>
      exact .ends (Daemon.carries_of_same (fun _ => rfl) rfl rfl fun _ => rfl)
        (List.subset_append_right _ _) rfl
  | task token t act root' d' mine effect =>
      refine .idle (effect.carries inv mine) ?_
      show d'.line = d.line
      rw [Daemon.line, Daemon.line, effect.frame.dispatcher, effect.frame.pending]

end Steps

/-! ## Runs -/

section Runs

variable {cfg : Config} {root : Root} {d : Daemon}

/-- A daemon at work on its jobs, and what the history of its line has to do with them. -/
structure LineWork (cfg : Config) (h : List (LineMark JobAddress)) (s : Root × Daemon) : Prop where
  daemon : DaemonInv cfg s.1 s.2
  /-- Nothing is submitted before the startup is over. -/
  early : s.2.isServing = false → ∀ key, s.2.submits key = none
  line : LineInv (s.2.lineView cfg s.1) h

lemma DaemonEffect.keepsEarly {root' : Root} {d' : Daemon} {act : DaemonAction}
    (effect : DaemonEffect cfg root d act root' d')
    (early : d.isServing = false → ∀ key, d.submits key = none) (hstarting : d'.isServing = false) :
    ∀ key, d'.submits key = none := by
  have hserves : d.isServing = true → d'.startup = d.startup → False := by
    intro hserving hsame
    rw [Daemon.isServing, hsame] at hstarting
    rw [Daemon.isServing, hstarting] at hserving
    cases hserving
  cases effect with
  | reattaches now b round handle others requeued startup =>
      exact early (by rw [Daemon.isServing, startup])
  | closesLost now b round others requeued startup =>
      exact early (by rw [Daemon.isServing, startup])
  | passesOver now b others requeued startup => exact early (by rw [Daemon.isServing, startup])
  | requeues b requeued startup => exact early (by rw [Daemon.isServing, startup])
  | serves startup => cases hstarting
  | task token t act root' d' mine effect =>
      have hframe := effect.frame
      rw [Daemon.isServing, hframe.startup] at hstarting
      rw [hframe.submits]
      exact early hstarting
  | _ => exact absurd rfl (hserves ‹_›)

lemma LineWork.step {h : List (LineMark JobAddress)} {s s' : Root × Daemon} {act : DaemonAction}
    (work : LineWork cfg h s) (hkeeps : Daemon.keepsOrder cfg s act = true)
    (hstep : Daemon.step cfg s act = some s') :
      LineWork cfg (h ++ Daemon.lineShown cfg s act) s' := by
  have effect := DaemonEffect.of_step hstep
  exact ⟨work.daemon.step hstep, effect.keepsEarly work.early,
    work.line.move (lineMove_of_effect effect work.daemon work.early hkeeps)⟩

/-- A starting daemon has nobody in line, and is to put queued jobs there. -/
lemma LineWork.started {walk : List JobAddress} (inv : RootInv root)
    (hwalk : walk.Perm root.jobDirsBelow) : LineWork cfg [] (root, .started root walk) where
  daemon := .started cfg inv hwalk
  early _ _ := rfl
  line := by
    refine .empty rfl ?_
    rintro a (⟨-, hrecorded⟩ | howes)
    · cases hrecorded
    · obtain ⟨s, hs⟩ := inv.stands a
      obtain rfl := requested_of_owed hs (started_owes howes).2
      exact ⟨hs, fun token m hm => nomatch hm⟩

/-- A starting daemon requeues its jobs in the order they were asked for. -/
lemma requeueOrder_pairwise (requeued : List (JobAddress × JobReport × Resumption))
    (hreports : ∀ job ∈ requeued, job.2.1 = root.report job.1) :
    (Daemon.requeueOrder requeued).Pairwise fun a b =>
      Daemon.askedBefore (root.report a).requestedAt (root.report b).requestedAt = true := by
  have htrans : ∀ s t u : Option Instant, Daemon.askedBefore s t = true →
      Daemon.askedBefore t u = true → Daemon.askedBefore s u = true := by
    intro s t u hst htu
    cases s <;> cases t <;> cases u <;>
      simp only [Daemon.askedBefore, decide_eq_true_eq, reduceCtorEq] at hst htu ⊢
    exact le_trans hst htu
  have htotal : ∀ s t : Option Instant,
      (Daemon.askedBefore s t || Daemon.askedBefore t s) = true := by
    intro s t
    cases s <;> cases t <;> simp [Daemon.askedBefore]
    exact le_total _ _
  have hsorted := List.pairwise_mergeSort
    (fun x y z => htrans x.2.1.requestedAt y.2.1.requestedAt z.2.1.requestedAt)
    (fun x y => htotal x.2.1.requestedAt y.2.1.requestedAt) requeued
  rw [Daemon.requeueOrder, List.pairwise_map]
  refine hsorted.imp_of_mem ?_
  intro x y hx hy hxy
  rw [← hreports x (List.mem_mergeSort.mp hx), ← hreports y (List.mem_mergeSort.mp hy)]
  exact hxy

/-- **Rounds are launched in line order, unless a job jumps ahead.**  A starting daemon puts the
jobs it finds queued in line in the order they were asked for.  In every run of it whose steps
throw no queued job's last place away and let no job jump ahead, rounds are registered in the order
their requests are put in line, but for those closed meanwhile. -/
theorem rounds_in_line_order {w w₁ : World} {walk : List JobAddress}
    (reached : Reachable (World.step cfg) anyAction (fun w => w = .fresh) w)
    (hstart : World.step cfg w (.start walk) = some w₁) (hd : w₁.daemon = some d) :
    (∃ others requeued, d.startup = .resuming others requeued ∧
      requeued.Pairwise fun a b =>
        Daemon.askedBefore (w₁.root.report a).requestedAt (w₁.root.report b).requestedAt = true) ∧
      ∀ h s, Run (Daemon.step cfg) (fun s act => Daemon.keepsOrder cfg s act = true)
        (Daemon.lineShown cfg) (w₁.root, d) h s → InLineOrder h := by
  have inv := WorldInv.of_reachable reached
  obtain ⟨-, hwalk, rfl⟩ := World.of_start hstart
  obtain rfl := Option.some.inj hd
  refine ⟨⟨_, _, rfl, requeueOrder_pairwise _ ?_⟩, ?_⟩
  · rintro ⟨a, report, r⟩ hjob
    exact (mem_owedUnder.mp (List.mem_filter.mp hjob).1).2.1
  · intro h s run
    have work : LineWork cfg h s := by
      refine run.history_invariant (I := LineWork cfg) ?_ (.started inv.root hwalk)
      intro h s act s' work hkeeps hstep
      exact work.step hkeeps hstep
    exact work.line.order

/-- Two jobs are put in line; the first is cancelled there, and revised. -/
def revisedInLine : List DaemonAction :=
  .serve :: (submitting 1 0 ++ submitting 2 1 ++ [.cancel jobAddress 2] ++ revising 1 3)

/-- **The revised job jumps ahead**: the dispatcher meets its first place, and launches the new
request from it, ahead of the job that was in line before. -/
theorem revised_job_jumps_ahead : ∃ w₁ d h s,
    World.step pairConfig .fresh (.start []) = some w₁ ∧ w₁.daemon = some d ∧
      Run (Daemon.step pairConfig) anyAction (Daemon.lineShown pairConfig) (w₁.root, d) h s ∧
        ¬ InLineOrder h := by
  have hdone : (exec (Daemon.step pairConfig) (.empty, .started .empty [])
      (revisedInLine ++ [.receive, .slotFree, .look])).isSome = true := by decide +kernel
  obtain ⟨s, hs⟩ := Option.isSome_iff_exists.mp hdone
  refine ⟨⟨.empty, some (.started .empty [])⟩, .started .empty [], _, s, rfl, rfl, .of_exec hs, ?_⟩
  have hshown : execShown (Daemon.step pairConfig) (Daemon.lineShown pairConfig)
      (.empty, .started .empty []) (revisedInLine ++ [.receive, .slotFree, .look]) =
        [.enqueued jobAddress 1, .enqueued (pairConfig.address repoKey 2) 1, .closed jobAddress 1,
          .enqueued jobAddress 2] ++ .registered jobAddress 2 :: [] := by decide +kernel
  rw [hshown]
  intro order
  have hahead := order _ jobAddress 2 [] rfl (pairConfig.address repoKey 2) 1 (by decide)
    (by decide)
  exact absurd hahead (by decide)

/-- A job is cancelled in line and revised before another is put there. -/
def revisedAlone : List DaemonAction :=
  .serve :: (submitting 1 0 ++ [.cancel jobAddress 1] ++ revising 1 2 ++ submitting 2 3 ++
    dispatching 0 ++ [.receive, .slotFree, .look] ++ dispatching 1)

/-- Where nobody else is in line, the revised job's first place is as good as its second. -/
theorem rounds_in_line_order_revised : ∃ w₁ d h s,
    World.step pairConfig .fresh (.start []) = some w₁ ∧ w₁.daemon = some d ∧
      Run (Daemon.step pairConfig) (fun s act => Daemon.keepsOrder pairConfig s act = true)
        (Daemon.lineShown pairConfig) (w₁.root, d) h s ∧
      .registered jobAddress 2 ∈ h ∧ .registered (pairConfig.address repoKey 2) 1 ∈ h ∧
        InLineOrder h := by
  have hdone : (exec (fun s act => if Daemon.keepsOrder pairConfig s act = true then
      Daemon.step pairConfig s act else none) (.empty, .started .empty []) revisedAlone).isSome =
        true := by decide +kernel
  obtain ⟨s, hs⟩ := Option.isSome_iff_exists.mp hdone
  have run := (@Run.of_exec _ _ _ _ (Daemon.lineShown pairConfig) _ _ _ hs).of_guarded
  have hstart : World.step pairConfig .fresh (.start []) =
      some ⟨.empty, some (.started .empty [])⟩ := rfl
  exact ⟨_, _, _, s, hstart, rfl, run, by decide +kernel, by decide +kernel,
    (rounds_in_line_order (.of_init rfl) hstart rfl).2 _ s run⟩

end Runs

end AssemblyLine
