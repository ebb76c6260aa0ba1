import AssemblyLine.Daemon.Serve

/-!
# What a step of a daemon does

`TaskEffect` and `DaemonEffect` list what a step of a round's task, and of a daemon, can do, with
what each leaves of the guards on its way.  `DaemonEffect.of_step` is the one place where the
step functions are unfolded: every invariant of a daemon is a case analysis of its effects.
-/

namespace AssemblyLine

/-- The job a submit has found idle, or made, and not yet recorded its request for. -/
def Submit.admitted : Submit → Option ℕ
  | .continued _ id _ => some id
  | .created _ id => some id
  | .holding _ => none
  | .recorded _ => none

/-- What a step of a round's task does. -/
inductive TaskEffect (root : Root) (d : Daemon) (token : Token) (t : RoundTask) :
    Root → Daemon → Prop
  /-- The task goes on, and its job sees nothing of it. -/
  | proceeds (phase : RoundPhase) (same : phase.stage = t.phase.stage)
      (held : t.phase.isRegistered = true) (holds : phase.isRegistered = true)
      (lived : t.phase.isLive = true) (lives : phase.isLive = true)
      (fails : ∀ stage reason, phase = .failing stage reason → stage ≠ .over)
      (cancels : ∀ reason, phase = .failing .waiting reason → d.fired token = true) :
      TaskEffect root d token t root (d.setTask token { t with phase })
  /-- A launched round is collected, and counts as launching no more. -/
  | opens (stream : RoundStream) (phase : RoundPhase) (opening : t.phase = .opening stream)
      (opened : phase = .collecting (.start (root.roundDisk t.address t.round) stream))
      (counted : t.launching = true) :
      TaskEffect root d token t root
        { d.setTask token { t with launching := false, phase } with queue := d.queue.dropLaunching }
  | appends (now : Instant) (due : EventKind × RoundPhase)
      (isDue : t.phase.due t.round = some due) :
      TaskEffect root d token t (root.append t.address now due.1)
        (d.setTask token { t with phase := due.2 })
  | collects (c c' : RoundCollection) (disk : RoundDisk) (collecting : t.phase = .collecting c)
      (next : c.next (root.roundDisk t.address t.round) = some (c', disk)) :
      TaskEffect root d token t (root.writeRound t.address t.round disk)
        (d.setTask token { t with phase := .collecting c' })
  /-- A round gives up before it starts, and says nothing. -/
  | abandons (waits : t.phase.stage = .waiting) (held : t.phase.isRegistered = true)
      (lived : t.phase.isLive = true)
      (why : d.queue.stopping = true ∨ (root.report t.address).request = none) :
      TaskEffect root d token t root (d.setTask token { t with phase := .returned })
  | dropsLaunching (returned : t.phase = .returned) (counted : t.launching = true) :
      TaskEffect root d token t root
        { d.setTask token { t with launching := false } with queue := d.queue.dropLaunching }
  | dropsRegistration (returned : t.phase = .returned) (uncounted : t.launching = false) :
      TaskEffect root d token t root
        { d.setTask token { t with phase := .deregistered } with
          queue := d.queue.deregister t.address t.round }
  | dropsSlot (deregistered : t.phase = .deregistered) :
      TaskEffect root d token t root
        { d with tasks := Function.update d.tasks token none, queue := d.queue.dropSlot }

/-- What a step of a daemon does. -/
inductive DaemonEffect (cfg : Config) (root : Root) (d : Daemon) :
    DaemonAction → Root → Daemon → Prop
  | reattaches (now : Instant) (a : JobAddress) (round : ℕ) (handle : RoundHandle)
      (others : List (JobAddress × Resumption)) (requeued : List JobAddress)
      (startup : d.startup = .resuming ((a, .reattach round handle) :: others) requeued) :
      DaemonEffect cfg root d (.resume now) root
        { d.addTask (d.queue.register a round d.nextToken).takeSlot
            ⟨a, round, requestsIn (root.events a), false, .reattaching handle⟩ with
          startup := .resuming others requeued
          reattached := d.reattached + 1 }
  | closesLost (now : Instant) (a : JobAddress) (round : ℕ)
      (others : List (JobAddress × Resumption)) (requeued : List JobAddress)
      (startup : d.startup = .resuming ((a, .lostWhileLaunching round) :: others) requeued) :
      DaemonEffect cfg root d (.resume now)
        (root.append a now (.roundFailed (lostWhileLaunching a.id)))
        { d with startup := .resuming others requeued }
  | passesOver (now : Instant) (a : JobAddress) (others : List (JobAddress × Resumption))
      (requeued : List JobAddress)
      (startup : d.startup = .resuming ((a, .requeue) :: others) requeued) :
      DaemonEffect cfg root d (.resume now) root { d with startup := .resuming others requeued }
  | requeues (a : JobAddress) (requeued : List JobAddress)
      (startup : d.startup = .resuming [] (a :: requeued)) :
      DaemonEffect cfg root d .requeue root
        { d with queue := d.queue.enqueue a, startup := .resuming [] requeued }
  | serves (startup : d.startup = .resuming [] []) :
      DaemonEffect cfg root d .serve root { d with startup := .serving }
  | holds (key : RepoKey) (submission : Submission) (serving : d.isServing = true)
      (free : d.submits key = none) :
      DaemonEffect cfg root d (.hold key submission) root
        (d.setSubmit key (some (.holding submission)))
  | continues (key : RepoKey) (submission : Submission) (id : ℕ) (provider : String)
      (serving : d.isServing = true) (holding : d.submits key = some (.holding submission))
      (idle : continuedJob id (cfg.address key id ∈ root.jobDirs)
        (root.report (cfg.address key id)) = .ok provider) :
      DaemonEffect cfg root d (.continueJob key) root
        (d.setSubmit key (some (.continued submission id provider)))
  | creates (key : RepoKey) (id : ℕ) (submission : Submission) (serving : d.isServing = true)
      (holding : d.submits key = some (.holding submission))
      (new : cfg.address key id ∉ root.jobDirs) :
      DaemonEffect cfg root d (.createJob key id) (root.createJob (cfg.address key id))
        (d.setSubmit key (some (.created submission id)))
  | records (key : RepoKey) (now : Instant) (base : PinnedRef) (configured : Option String)
      (submit : Submit) (id : ℕ) (request : RoundRequest) (serving : d.isServing = true)
      (holds : d.submits key = some submit) (admitted : submit.admitted = some id) :
      DaemonEffect cfg root d (.recordRequest key now base configured)
        (root.append (cfg.address key id) now
          (.roundRequested request.remoteUrl request.base request.prompt request.provider))
        (d.setSubmit key (some (.recorded id)))
  | enqueues (key : RepoKey) (id : ℕ) (serving : d.isServing = true)
      (recorded : d.submits key = some (.recorded id)) :
      DaemonEffect cfg root d (.enqueue key) root
        { d.setSubmit key none with queue := d.queue.enqueue (cfg.address key id) }
  | refuses (key : RepoKey) (submit : Submit) (serving : d.isServing = true)
      (holds : d.submits key = some submit) (unrecorded : ∀ id, submit ≠ .recorded id) :
      DaemonEffect cfg root d (.refuse key) root (d.setSubmit key none)
  | fires (a : JobAddress) (now : Instant) (token : Token) (serving : d.isServing = true)
      (does : d.queue.cancel a (a ∈ root.jobDirs) (root.report a) = .fires token) :
      DaemonEffect cfg root d (.cancel a now) root
        { d with fired := Function.update d.fired token true }
  | closes (a : JobAddress) (now : Instant) (serving : d.isServing = true)
      (queued : (root.report a).state = .queued)
      (free : d.queue.alreadyLaunched a (root.report a) = false)
      (does : d.queue.cancel a (a ∈ root.jobDirs) (root.report a) = .closes) :
      DaemonEffect cfg root d (.cancel a now)
        (root.append a now (.roundFailed cancelledBeforeItStarted)) d
  | cancelsNothing (a : JobAddress) (now : Instant) (because : String)
      (serving : d.isServing = true)
      (does : d.queue.cancel a (a ∈ root.jobDirs) (root.report a) = .refuses because) :
      DaemonEffect cfg root d (.cancel a now) root d
  | stopsLaunching (serving : d.isServing = true) :
      DaemonEffect cfg root d .stopLaunching root { d with queue := d.queue.stopLaunching }
  | receives (a : JobAddress) (pending : List JobAddress) (serving : d.isServing = true)
      (receiving : d.dispatcher = .receiving) (first : d.queue.pending = a :: pending) :
      DaemonEffect cfg root d .receive root
        { d with dispatcher := .waiting a, queue := { d.queue with pending } }
  | findsSlot (a : JobAddress) (serving : d.isServing = true) (waiting : d.dispatcher = .waiting a)
      (free : d.queue.running < cfg.maxJobs) :
      DaemonEffect cfg root d .slotFree root { d with dispatcher := .looking a }
  | registers (a : JobAddress) (serving : d.isServing = true) (looking : d.dispatcher = .looking a)
      (queued : (root.report a).state = .queued)
      (free : d.queue.alreadyLaunched a (root.report a) = false) :
      DaemonEffect cfg root d .look root
        { d.addTask (d.queue.register a ((root.report a).rounds + 1) d.nextToken)
            ⟨a, (root.report a).rounds + 1, requestsIn (root.events a), false, .registered⟩ with
          dispatcher := .registered d.nextToken }
  | skips (a : JobAddress) (serving : d.isServing = true) (looking : d.dispatcher = .looking a)
      (why : (root.report a).state = .queued → d.queue.alreadyLaunched a (root.report a) = true) :
      DaemonEffect cfg root d .look root { d with dispatcher := .receiving }
  | counts (token : Token) (t : RoundTask) (serving : d.isServing = true)
      (registered : d.dispatcher = .registered token) (mine : d.tasks token = some t) :
      DaemonEffect cfg root d .countLaunching root
        { d.setTask token { t with launching := true } with
          dispatcher := .counted token, queue := d.queue.countLaunching }
  | spawns (token : Token) (t : RoundTask) (serving : d.isServing = true)
      (counted : d.dispatcher = .counted token) (mine : d.tasks token = some t) :
      DaemonEffect cfg root d .spawn root
        { d.setTask token { t with phase := .reading } with
          dispatcher := .receiving, queue := d.queue.takeSlot }
  | returns (serving : d.isServing = true)
      (idle : d.dispatcher = .receiving ∨ ∃ a, d.dispatcher = .waiting a)
      (stopping : d.queue.stopping = true) :
      DaemonEffect cfg root d .dispatcherStops root { d with dispatcher := .returned }
  | task (token : Token) (t : RoundTask) (act : TaskAction) (root' : Root) (d' : Daemon)
      (mine : d.tasks token = some t) (effect : TaskEffect root d token t root' d') :
      DaemonEffect cfg root d (.task token act) root' d'

/-! ## Every step has one of these effects -/

variable {cfg : Config} {root root' : Root} {d d' : Daemon}

/-- A round whose stream has ended without a verdict has one to come, and no other has. -/
lemma RoundPhase.afterStream_eq (c : RoundCollection) (endedBecause : String) :
    RoundPhase.afterStream c endedBecause =
      if c.judged then .returned
      else .failing .launched s!"the round ended without reporting a verdict: {endedBecause}" := by
  have hsettled : c.settled endedBecause =
      if c.judged then none
      else some (.roundFailed
        s!"the round ended without reporting a verdict: {endedBecause}") := rfl
  unfold RoundPhase.afterStream
  rw [hsettled]
  cases c.judged <;> rfl

/-! ### What each action does to a task -/

namespace Daemon

variable {token : Token} {t : RoundTask} {now : Instant}

lemma taskStep_readRequest (h : taskStep root d token t .readRequest = some (root', d')) :
    t.phase = .reading ∧ root' = root ∧
      ((∃ request, d' = d.setTask token { t with phase := .configuring request }) ∨
        (root.report t.address).request = none ∧
          d' = d.setTask token { t with phase := .returned }) := by
  simp only [taskStep] at h
  split at h
  · rename_i hphase
    split at h
    · cases h
      exact ⟨hphase, rfl, .inl ⟨_, rfl⟩⟩
    · rename_i hrequest
      cases h
      exact ⟨hphase, rfl, .inr ⟨hrequest, rfl⟩⟩
  · cases h

lemma taskStep_seeCancelled (h : taskStep root d token t .seeCancelled = some (root', d')) :
    ∃ request, t.phase = .configuring request ∧ d.fired token = true ∧ root' = root ∧
      d' = d.setTask token { t with phase := .failing .waiting cancelledBeforeItStarted } := by
  simp only [taskStep] at h
  split at h
  · rename_i request hphase
    obtain ⟨hfired, h⟩ := Option.ite_none_right_eq_some.mp h
    cases h
    exact ⟨request, hphase, hfired, rfl, rfl⟩
  · cases h

lemma taskStep_seeStopping (h : taskStep root d token t .seeStopping = some (root', d')) :
    ∃ request, t.phase = .configuring request ∧ d.queue.stopping = true ∧ root' = root ∧
      d' = d.setTask token { t with phase := .returned } := by
  simp only [taskStep] at h
  split at h
  · rename_i request hphase
    obtain ⟨hstopping, h⟩ := Option.ite_none_right_eq_some.mp h
    cases h
    exact ⟨request, hphase, hstopping, rfl, rfl⟩
  · cases h

lemma taskStep_readConfig {config : Except String Unit}
    (h : taskStep root d token t (.readConfig config) = some (root', d')) :
    ∃ request, t.phase = .configuring request ∧ root' = root ∧
      d' = d.setTask token { t with phase := .starting request config } := by
  simp only [taskStep] at h
  split at h
  · rename_i request hphase
    cases h
    exact ⟨request, hphase, rfl, rfl⟩
  · cases h

lemma taskStep_append (h : taskStep root d token t (.append now) = some (root', d')) :
    ∃ due, t.phase.due t.round = some due ∧ root' = root.append t.address now due.1 ∧
      d' = d.setTask token { t with phase := due.2 } := by
  simp only [taskStep, Option.map_eq_some_iff, Prod.mk.injEq] at h
  obtain ⟨due, hdue, rfl, rfl⟩ := h
  exact ⟨due, hdue, rfl, rfl⟩

lemma taskStep_launchReturns {launched : Except String (RoundHandle × RoundStream)}
    (h : taskStep root d token t (.launchReturns launched) = some (root', d')) :
    ∃ request phase, t.phase = .launching request ∧ root' = root ∧
      d' = d.setTask token { t with phase } ∧
        ((∃ handle stream, phase = .recording handle stream) ∨
          ∃ reason, phase = .failing .started reason) := by
  simp only [taskStep] at h
  split at h
  · rename_i request hphase
    split at h <;> cases h
    · exact ⟨request, _, hphase, rfl, rfl, .inl ⟨_, _, rfl⟩⟩
    · exact ⟨request, _, hphase, rfl, rfl, .inr ⟨_, rfl⟩⟩
  · cases h

lemma taskStep_reattachReturns {running : Except String RoundStream}
    (h : taskStep root d token t (.reattachReturns running) = some (root', d')) :
    ∃ handle phase, t.phase = .reattaching handle ∧ root' = root ∧
      d' = d.setTask token { t with phase } ∧
        ((∃ stream, phase = .opening stream) ∨ ∃ reason, phase = .failing .launched reason) := by
  simp only [taskStep] at h
  split at h
  · rename_i handle hphase
    split at h <;> cases h
    · exact ⟨handle, _, hphase, rfl, rfl, .inl ⟨_, rfl⟩⟩
    · exact ⟨handle, _, hphase, rfl, rfl, .inr ⟨_, rfl⟩⟩
  · cases h

lemma taskStep_startCollecting (h : taskStep root d token t .startCollecting = some (root', d')) :
    ∃ stream phase, t.phase = .opening stream ∧ root' = root ∧
      phase = .collecting (.start (root.roundDisk t.address t.round) stream) ∧
        (t.launching = true ∧ d' = { d.setTask token { t with launching := false, phase } with
            queue := d.queue.dropLaunching } ∨
          d' = d.setTask token { t with phase }) := by
  simp only [taskStep] at h
  split at h
  · rename_i stream hphase
    split at h
    · rename_i hcounted
      cases h
      exact ⟨stream, _, hphase, rfl, rfl, .inl ⟨hcounted, rfl⟩⟩
    · cases h
      exact ⟨stream, _, hphase, rfl, rfl, .inr rfl⟩
  · cases h

lemma taskStep_collect (h : taskStep root d token t .collect = some (root', d')) :
    ∃ c c' disk, t.phase = .collecting c ∧
      c.next (root.roundDisk t.address t.round) = some (c', disk) ∧
        root' = root.writeRound t.address t.round disk ∧
          d' = d.setTask token { t with phase := .collecting c' } := by
  simp only [taskStep] at h
  split at h
  · rename_i c hphase
    simp only [Option.map_eq_some_iff, Prod.mk.injEq, Prod.exists] at h
    obtain ⟨c', disk, hnext, rfl, rfl⟩ := h
    exact ⟨c, c', disk, hphase, hnext, rfl, rfl⟩
  · cases h

lemma taskStep_cancelRound (h : taskStep root d token t .cancelRound = some (root', d')) :
    ∃ c c', t.phase = .collecting c ∧ c.cancel = some c' ∧ root' = root ∧
      d' = d.setTask token { t with phase := .collecting c' } := by
  simp only [taskStep] at h
  split at h
  · rename_i c hphase
    obtain ⟨-, h⟩ := Option.ite_none_right_eq_some.mp h
    simp only [Option.map_eq_some_iff, Prod.mk.injEq] at h
    obtain ⟨c', hcancel, rfl, rfl⟩ := h
    exact ⟨c, c', hphase, hcancel, rfl, rfl⟩
  · cases h

lemma taskStep_streamEnds {endedBecause : String}
    (h : taskStep root d token t (.streamEnds endedBecause) = some (root', d')) :
    ∃ c, t.phase = .collecting c ∧ root' = root ∧
      d' = d.setTask token { t with phase := .afterStream c endedBecause } := by
  simp only [taskStep] at h
  split at h
  · rename_i c hphase
    obtain ⟨-, h⟩ := Option.ite_none_right_eq_some.mp h
    cases h
    exact ⟨c, hphase, rfl, rfl⟩
  · cases h

lemma taskStep_dropLaunching (h : taskStep root d token t .dropLaunching = some (root', d')) :
    t.phase = .returned ∧ t.launching = true ∧ root' = root ∧
      d' = { d.setTask token { t with launching := false } with
        queue := d.queue.dropLaunching } := by
  simp only [taskStep] at h
  split at h
  · rename_i hphase
    obtain ⟨hcounted, h⟩ := Option.ite_none_right_eq_some.mp h
    cases h
    exact ⟨hphase, hcounted, rfl, rfl⟩
  · cases h

lemma taskStep_dropRegistration
    (h : taskStep root d token t .dropRegistration = some (root', d')) :
    t.phase = .returned ∧ t.launching = false ∧ root' = root ∧
      d' = { d.setTask token { t with phase := .deregistered } with
        queue := d.queue.deregister t.address t.round } := by
  simp only [taskStep] at h
  split at h
  · rename_i hphase
    obtain ⟨huncounted, h⟩ := Option.ite_none_left_eq_some.mp h
    cases h
    exact ⟨hphase, by simpa using huncounted, rfl, rfl⟩
  · cases h

lemma taskStep_dropSlot (h : taskStep root d token t .dropSlot = some (root', d')) :
    t.phase = .deregistered ∧ root' = root ∧
      d' = { d with tasks := Function.update d.tasks token none, queue := d.queue.dropSlot } := by
  simp only [taskStep] at h
  split at h
  · rename_i hphase
    cases h
    exact ⟨hphase, rfl, rfl⟩
  · cases h

end Daemon

namespace TaskEffect

variable {token : Token} {t : RoundTask}

/-- `proceeds`, from a phase that is known to one that records no cancel. -/
lemma proceeds_from {before phase : RoundPhase} (hphase : t.phase = before)
    (same : phase.stage = before.stage) (held : before.isRegistered = true)
    (holds : phase.isRegistered = true) (lived : before.isLive = true)
    (lives : phase.isLive = true)
    (fails : ∀ stage reason, phase = .failing stage reason → stage = .started ∨ stage = .launched) :
    TaskEffect root d token t root (d.setTask token { t with phase }) := by
  subst hphase
  refine .proceeds phase same held holds lived lives ?_ ?_
  · intro stage reason hfailing
    rcases fails stage reason hfailing with rfl | rfl <;> simp
  · intro reason hfailing
    rcases fails .waiting reason hfailing with h | h <;> cases h

/-- Every step of a task has an effect. -/
theorem of_step {act : TaskAction} (h : Daemon.taskStep root d token t act = some (root', d')) :
    TaskEffect root d token t root' d' := by
  cases act with
  | readRequest =>
      obtain ⟨hphase, rfl, ⟨request, rfl⟩ | ⟨hrequest, rfl⟩⟩ := Daemon.taskStep_readRequest h
      · exact proceeds_from hphase rfl rfl rfl rfl rfl (by simp)
      · refine .abandons ?_ ?_ ?_ (.inr hrequest) <;> rw [hphase] <;> rfl
  | seeCancelled =>
      obtain ⟨request, hphase, hfired, rfl, rfl⟩ := Daemon.taskStep_seeCancelled h
      refine .proceeds _ ?_ ?_ rfl ?_ rfl (by simp) fun _ _ => hfired <;> rw [hphase] <;> rfl
  | seeStopping =>
      obtain ⟨request, hphase, hstopping, rfl, rfl⟩ := Daemon.taskStep_seeStopping h
      refine .abandons ?_ ?_ ?_ (.inl hstopping) <;> rw [hphase] <;> rfl
  | readConfig config =>
      obtain ⟨request, hphase, rfl, rfl⟩ := Daemon.taskStep_readConfig h
      exact proceeds_from hphase rfl rfl rfl rfl rfl (by simp)
  | append now =>
      obtain ⟨due, hdue, rfl, rfl⟩ := Daemon.taskStep_append h
      exact .appends now due hdue
  | launchReturns launched =>
      obtain ⟨request, phase, hphase, rfl, rfl, ⟨handle, stream, rfl⟩ | ⟨reason, rfl⟩⟩ :=
        Daemon.taskStep_launchReturns h
      · exact proceeds_from hphase rfl rfl rfl rfl rfl (by simp)
      · exact proceeds_from hphase rfl rfl rfl rfl rfl (by simp)
  | reattachReturns running =>
      obtain ⟨handle, phase, hphase, rfl, rfl, ⟨stream, rfl⟩ | ⟨reason, rfl⟩⟩ :=
        Daemon.taskStep_reattachReturns h
      · exact proceeds_from hphase rfl rfl rfl rfl rfl (by simp)
      · exact proceeds_from hphase rfl rfl rfl rfl rfl (by simp)
  | startCollecting =>
      obtain ⟨stream, phase, hphase, rfl, rfl, ⟨hcounted, rfl⟩ | rfl⟩ :=
        Daemon.taskStep_startCollecting h
      · exact .opens stream _ hphase rfl hcounted
      · exact proceeds_from hphase rfl rfl rfl rfl rfl (by simp)
  | collect =>
      obtain ⟨c, c', disk, hphase, hnext, rfl, rfl⟩ := Daemon.taskStep_collect h
      exact .collects c c' disk hphase hnext
  | cancelRound =>
      obtain ⟨c, c', hphase, hcancel, rfl, rfl⟩ := Daemon.taskStep_cancelRound h
      refine proceeds_from hphase ?_ rfl rfl rfl rfl (by simp)
      simp only [RoundPhase.stage, RoundCollection.judged_cancel hcancel]
  | streamEnds endedBecause =>
      obtain ⟨c, hphase, rfl, rfl⟩ := Daemon.taskStep_streamEnds h
      rw [RoundPhase.afterStream_eq]
      cases hjudged : c.judged with
      | true =>
          exact proceeds_from hphase (by simp [RoundPhase.stage, hjudged]) rfl rfl rfl rfl (by simp)
      | false =>
          exact proceeds_from hphase (by simp [RoundPhase.stage, hjudged]) rfl rfl rfl rfl (by simp)
  | dropLaunching =>
      obtain ⟨hphase, hcounted, rfl, rfl⟩ := Daemon.taskStep_dropLaunching h
      exact .dropsLaunching hphase hcounted
  | dropRegistration =>
      obtain ⟨hphase, huncounted, rfl, rfl⟩ := Daemon.taskStep_dropRegistration h
      exact .dropsRegistration hphase huncounted
  | dropSlot =>
      obtain ⟨hphase, rfl, rfl⟩ := Daemon.taskStep_dropSlot h
      exact .dropsSlot hphase

end TaskEffect

/-- What a step of a round's task changes but the task's own state, and what it leaves alone. -/
structure TaskFrame (root : Root) (d : Daemon) (token : Token) (t : RoundTask) (root' : Root)
    (d' : Daemon) : Prop where
  task : ∃ changed, d'.tasks = Function.update d.tasks token changed ∧
    ∀ t', changed = some t' → t'.address = t.address ∧ t'.phase.isLive = true ∧
      ∀ stage reason, t'.phase = .failing stage reason → stage ≠ .over
  lived : t.phase.isLive = true
  dispatcher : d'.dispatcher = d.dispatcher
  nextToken : d'.nextToken = d.nextToken
  startup : d'.startup = d.startup
  submits : d'.submits = d.submits
  pending : d'.queue.pending = d.queue.pending
  stopping : d'.queue.stopping = d.queue.stopping
  reattached : d'.reattached = d.reattached
  jobDirs : root'.jobDirs = root.jobDirs
  events : ∀ a, a ≠ t.address → root'.events a = root.events a

lemma RoundPhase.live_of_due {phase : RoundPhase} {round : ℕ} {due : EventKind × RoundPhase}
    (h : phase.due round = some due) :
    phase.isLive = true ∧ due.2.isLive = true ∧
      ∀ stage reason, due.2 = .failing stage reason → stage ≠ .over := by
  unfold RoundPhase.due at h
  split at h
  · cases h
    exact ⟨rfl, rfl, by simp⟩
  · cases h
    refine ⟨rfl, rfl, ?_⟩
    intro stage reason hfailing
    cases hfailing
    simp
  · cases h
    exact ⟨rfl, rfl, by simp⟩
  · cases h
    exact ⟨rfl, rfl, by simp⟩
  · simp at h

theorem TaskEffect.frame {token : Token} {t : RoundTask}
    (effect : TaskEffect root d token t root' d') : TaskFrame root d token t root' d' := by
  cases effect with
  | proceeds phase same held holds lived lives fails cancels =>
      refine ⟨⟨_, rfl, ?_⟩, lived, rfl, rfl, rfl, rfl, rfl, rfl, rfl, rfl, fun _ _ => rfl⟩
      rintro t' ⟨rfl⟩
      exact ⟨rfl, lives, fails⟩
  | opens stream phase opening opened counted =>
      refine ⟨⟨_, rfl, ?_⟩, by rw [opening]; rfl, rfl, rfl, rfl, rfl, rfl, rfl, rfl, rfl,
        fun _ _ => rfl⟩
      rintro t' ⟨rfl⟩
      rw [opened]
      exact ⟨rfl, rfl, by simp⟩
  | appends now due isDue =>
      obtain ⟨lived, lives, fails⟩ := RoundPhase.live_of_due isDue
      refine ⟨⟨_, rfl, ?_⟩, lived, rfl, rfl, rfl, rfl, rfl, rfl, rfl, rfl, ?_⟩
      · rintro t' ⟨rfl⟩
        exact ⟨rfl, lives, fails⟩
      · intro a ha
        exact Function.update_of_ne ha _ _
  | collects c c' disk collecting next =>
      refine ⟨⟨_, rfl, ?_⟩, by rw [collecting]; rfl, rfl, rfl, rfl, rfl, rfl, rfl, rfl, rfl, ?_⟩
      · rintro t' ⟨rfl⟩
        exact ⟨rfl, rfl, by simp⟩
      · intro a ha
        exact Function.update_of_ne ha _ _
  | abandons waits held lived why =>
      refine ⟨⟨_, rfl, ?_⟩, lived, rfl, rfl, rfl, rfl, rfl, rfl, rfl, rfl, fun _ _ => rfl⟩
      rintro t' ⟨rfl⟩
      exact ⟨rfl, rfl, by simp⟩
  | dropsLaunching returned counted =>
      refine ⟨⟨_, rfl, ?_⟩, by rw [returned]; rfl, rfl, rfl, rfl, rfl, rfl, rfl, rfl, rfl,
        fun _ _ => rfl⟩
      rintro t' ⟨rfl⟩
      rw [returned]
      exact ⟨rfl, rfl, by simp⟩
  | dropsRegistration returned uncounted =>
      obtain ⟨hpending, -, -, hstopping⟩ := d.queue.deregister_frame t.address t.round
      refine ⟨⟨_, rfl, ?_⟩, by rw [returned]; rfl, rfl, rfl, rfl, rfl, hpending, hstopping, rfl,
        rfl, fun _ _ => rfl⟩
      rintro t' ⟨rfl⟩
      exact ⟨rfl, rfl, by simp⟩
  | dropsSlot deregistered =>
      refine ⟨⟨none, rfl, by simp⟩, by rw [deregistered]; rfl, rfl, rfl, rfl, rfl, rfl, rfl, rfl,
        rfl, fun _ _ => rfl⟩

namespace DaemonEffect

variable {act : DaemonAction}

lemma of_startupStep (h : Daemon.startupStep root d act = some (root', d')) :
    DaemonEffect cfg root d act root' d' := by
  unfold Daemon.startupStep at h
  split at h
  · split at h
    · rename_i hstartup
      simp only [Option.some.injEq, Prod.mk.injEq] at h
      obtain ⟨rfl, rfl⟩ := h
      exact .reattaches _ _ _ _ _ _ hstartup
    · rename_i hstartup
      simp only [Option.some.injEq, Prod.mk.injEq] at h
      obtain ⟨rfl, rfl⟩ := h
      exact .closesLost _ _ _ _ _ hstartup
    · rename_i hstartup
      simp only [Option.some.injEq, Prod.mk.injEq] at h
      obtain ⟨rfl, rfl⟩ := h
      exact .passesOver _ _ _ _ hstartup
    · simp at h
  · split at h
    · rename_i hstartup
      simp only [Option.some.injEq, Prod.mk.injEq] at h
      obtain ⟨rfl, rfl⟩ := h
      exact .requeues _ _ hstartup
    · simp at h
  · split at h
    · rename_i hstartup
      simp only [Option.some.injEq, Prod.mk.injEq] at h
      obtain ⟨rfl, rfl⟩ := h
      exact .serves hstartup
    · simp at h
  · simp at h

lemma of_submitStep (serving : d.isServing = true)
    (h : Daemon.submitStep cfg root d act = some (root', d')) :
    DaemonEffect cfg root d act root' d' := by
  unfold Daemon.submitStep at h
  split at h
  · split at h
    · rename_i hfree
      simp only [Option.some.injEq, Prod.mk.injEq] at h
      obtain ⟨rfl, rfl⟩ := h
      exact .holds _ _ serving hfree
    · simp at h
  · split at h
    · rename_i submission hholding
      split at h
      · rename_i id hjob
        dsimp only at h
        split at h
        · rename_i provider hidle
          simp only [Option.some.injEq, Prod.mk.injEq] at h
          obtain ⟨rfl, rfl⟩ := h
          exact .continues _ submission id provider serving hholding hidle
        · simp at h
      · simp at h
    · simp at h
  · split at h
    · rename_i submission hholding
      split at h
      · rename_i hnew
        simp only [Option.some.injEq, Prod.mk.injEq] at h
        obtain ⟨rfl, rfl⟩ := h
        exact .creates _ _ submission serving hholding hnew.2
      · simp at h
    · simp at h
  · rename_i key now base configured
    split at h
    · rename_i submission id provider hcontinued
      simp only [Option.some.injEq, Prod.mk.injEq] at h
      obtain ⟨rfl, rfl⟩ := h
      exact .records key now base configured _ id
        ⟨submission.remoteUrl, base, submission.prompt, provider⟩ serving hcontinued rfl
    · rename_i submission id hcreated
      simp only [Option.some.injEq, Prod.mk.injEq] at h
      obtain ⟨rfl, rfl⟩ := h
      exact .records key now base configured _ id
        ⟨submission.remoteUrl, base, submission.prompt,
          (submission.provider.or configured).getD ""⟩ serving hcreated rfl
    · simp at h
  · split at h
    · rename_i id hrecorded
      simp only [Option.some.injEq, Prod.mk.injEq] at h
      obtain ⟨rfl, rfl⟩ := h
      exact .enqueues _ id serving hrecorded
    · simp at h
  · split at h
    · rename_i submission hholding
      simp only [Option.some.injEq, Prod.mk.injEq] at h
      obtain ⟨rfl, rfl⟩ := h
      exact .refuses _ _ serving hholding (by simp)
    · rename_i submission id provider hcontinued
      simp only [Option.some.injEq, Prod.mk.injEq] at h
      obtain ⟨rfl, rfl⟩ := h
      exact .refuses _ _ serving hcontinued (by simp)
    · simp at h
  · simp at h

/-- When a cancel closes a job, the job is queued and no round is launched for its request. -/
lemma queued_of_closes {queue : JobQueue} {a : JobAddress} {exists_ : Bool} {report : JobReport}
    (h : queue.cancel a exists_ report = .closes) :
    report.state = .queued ∧ queue.alreadyLaunched a report = false := by
  unfold JobQueue.cancel at h
  split at h
  · split at h
    · simp at h
    · rename_i hawaited
      split at h
      · rename_i hstate
        refine ⟨hstate, ?_⟩
        unfold JobQueue.alreadyLaunched
        cases hentry : queue.cancels a with
        | none => rfl
        | some launched => simpa [hentry, Option.filter_eq_none_iff] using hawaited
      all_goals simp at h
  · simp at h

lemma of_controlStep (serving : d.isServing = true)
    (h : Daemon.controlStep root d act = some (root', d')) :
    DaemonEffect cfg root d act root' d' := by
  unfold Daemon.controlStep at h
  split at h
  · split at h
    · rename_i token hfires
      simp only [Option.some.injEq, Prod.mk.injEq] at h
      obtain ⟨rfl, rfl⟩ := h
      exact .fires _ _ token serving hfires
    · rename_i hcloses
      simp only [Option.some.injEq, Prod.mk.injEq] at h
      obtain ⟨rfl, rfl⟩ := h
      obtain ⟨hqueued, hfree⟩ := queued_of_closes hcloses
      exact .closes _ _ serving hqueued hfree hcloses
    · rename_i because hrefuses
      simp only [Option.some.injEq, Prod.mk.injEq] at h
      obtain ⟨rfl, rfl⟩ := h
      exact .cancelsNothing _ _ because serving hrefuses
  · simp only [Option.some.injEq, Prod.mk.injEq] at h
    obtain ⟨rfl, rfl⟩ := h
    exact .stopsLaunching serving
  · simp at h

lemma of_dispatcherStep (serving : d.isServing = true)
    (h : Daemon.dispatcherStep cfg root d act = some (root', d')) :
    DaemonEffect cfg root d act root' d' := by
  unfold Daemon.dispatcherStep at h
  split at h
  · split at h
    · rename_i a pending hreceiving hfirst
      simp only [Option.some.injEq, Prod.mk.injEq] at h
      obtain ⟨rfl, rfl⟩ := h
      exact .receives a pending serving hreceiving hfirst
    · simp at h
  · split at h
    · rename_i a hwaiting
      split at h
      · rename_i hfree
        simp only [Option.some.injEq, Prod.mk.injEq] at h
        obtain ⟨rfl, rfl⟩ := h
        exact .findsSlot a serving hwaiting hfree
      · simp at h
    · simp at h
  · split at h
    · rename_i a hlooking
      split at h
      · rename_i queue hregistered
        simp only [Option.some.injEq, Prod.mk.injEq] at h
        obtain ⟨rfl, rfl⟩ := h
        simp only [JobQueue.registerIfStillQueued, Option.ite_none_right_eq_some,
          Option.some.injEq] at hregistered
        obtain ⟨⟨hqueued, hfree⟩, rfl⟩ := hregistered
        exact .registers a serving hlooking hqueued hfree
      · rename_i hskipped
        simp only [Option.some.injEq, Prod.mk.injEq] at h
        obtain ⟨rfl, rfl⟩ := h
        refine .skips a serving hlooking ?_
        intro hqueued
        by_contra hfree
        simp [JobQueue.registerIfStillQueued, hqueued, hfree] at hskipped
    · simp at h
  · split at h
    · rename_i token hregistered
      simp only [Option.map_eq_some_iff, Prod.mk.injEq] at h
      obtain ⟨t, ht, rfl, rfl⟩ := h
      exact .counts token t serving hregistered ht
    · simp at h
  · split at h
    · rename_i token hcounted
      simp only [Option.map_eq_some_iff, Prod.mk.injEq] at h
      obtain ⟨t, ht, rfl, rfl⟩ := h
      exact .spawns token t serving hcounted ht
    · simp at h
  · split at h
    · rename_i hreceiving
      simp only [Option.ite_none_right_eq_some, Option.some.injEq, Prod.mk.injEq] at h
      obtain ⟨hstopping, rfl, rfl⟩ := h
      exact .returns serving (.inl hreceiving) hstopping
    · rename_i a hwaiting
      simp only [Option.ite_none_right_eq_some, Option.some.injEq, Prod.mk.injEq] at h
      obtain ⟨hstopping, rfl, rfl⟩ := h
      exact .returns serving (.inr ⟨a, hwaiting⟩) hstopping
    · simp at h
  · simp at h

/-- Every step of a daemon has an effect. -/
theorem of_step (h : Daemon.step cfg (root, d) act = some (root', d')) :
    DaemonEffect cfg root d act root' d' := by
  unfold Daemon.step at h
  split at h
  · rename_i token act
    obtain ⟨t, ht, hstep⟩ := Option.bind_eq_some_iff.mp h
    exact .task token t act root' d' ht (.of_step hstep)
  all_goals first
    | exact of_startupStep h
    | (obtain ⟨serving, hstep⟩ := Option.ite_none_right_eq_some.mp h
       first
         | exact of_submitStep serving hstep
         | exact of_controlStep serving hstep
         | exact of_dispatcherStep serving hstep)

end DaemonEffect

end AssemblyLine
