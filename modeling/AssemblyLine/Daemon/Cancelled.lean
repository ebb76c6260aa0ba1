import AssemblyLine.Daemon.Settles

/-!
# What a cancelled job's log goes on with

Every job's log is a prefix of finished lifecycles, whatever is done to its daemons
(`job_log_lifecycle`).  A cancel of a queued job is one of two things.  Where the cancel table has
no entry for the job's next round, it closes the job under the table's lock, and no round of it
starts until it is asked for again.  Where it has one, the cancel fires that entry's token and
answers that the job was running; but the entry may belong to a round that is over, which nobody
waits on any more, and the queued request is then launched as if it had not been cancelled
(`cancelled_job_launched`).  Even a round that is still to start is not stopped for good: a daemon
killed before the round says so leaves the job queued, and the next one launches it
(`WorldInv.launches_of_fires`).
-/

namespace AssemblyLine

/-- Whether these letters start a round before they ask for another. -/
def startsUnasked (letters : List Lifecycle) : Prop :=
  .started ∈ letters.takeWhile (· ≠ .requested)

lemma startsUnasked_cons (letters : List Lifecycle) : startsUnasked (.started :: letters) := by
  simp [startsUnasked]

lemma not_startsUnasked_of_head {letters : List Lifecycle}
    (h : letters.head? = none ∨ letters.head? = some .requested) : ¬ startsUnasked letters := by
  cases letters with
  | nil => simp [startsUnasked]
  | cons letter letters =>
      obtain rfl : letter = .requested := by simpa using h
      simp [startsUnasked]

/-- Whatever is done from here on, no round of the job starts before the job is asked for again. -/
def World.NeverLaunches (cfg : Config) (w : World) (a : JobAddress) : Prop :=
  ∀ h w', Run (World.step cfg) anyAction actionsShown w h w' →
    ∃ more, lifecycleOf (w'.root.events a) = lifecycleOf (w.root.events a) ++ more ∧
      ¬ startsUnasked more

/-! ## A daemon that nobody cancels under -/

/-- No token has been fired, and no round is about to say that it was cancelled. -/
structure Daemon.Undisturbed (d : Daemon) : Prop where
  unfired : ∀ token, d.fired token = false
  goesOn : ∀ token t reason, d.tasks token = some t → t.phase ≠ .failing .waiting reason

section Steps

variable {cfg : Config} {root root' : Root} {d d' : Daemon} {token : Token} {t : RoundTask}
  {a : JobAddress}

lemma Daemon.Undisturbed.started (root : Root) (walk : List JobAddress) :
    (Daemon.started root walk).Undisturbed :=
  ⟨fun _ => rfl, fun _ _ _ h => nomatch h⟩

/-- A daemon one of whose tasks changes stays so. -/
lemma Daemon.Undisturbed.update (undisturbed : d.Undisturbed) {changed : Option RoundTask}
    (hfired : d'.fired = d.fired) (htasks : d'.tasks = Function.update d.tasks token changed)
    (hchanged : ∀ t', changed = some t' → ∀ reason, t'.phase ≠ .failing .waiting reason) :
    d'.Undisturbed where
  unfired token' := (congrFun hfired token').trans (undisturbed.unfired token')
  goesOn token' t' reason ht' := by
    rw [htasks] at ht'
    rcases entry_of_update ht' with ⟨-, hnew⟩ | ⟨-, hold⟩
    · exact hchanged t' hnew reason
    · exact undisturbed.goesOn token' t' reason hold

lemma RoundPhase.ne_failing_of_due {phase : RoundPhase} {round : ℕ} {due : EventKind × RoundPhase}
    (h : phase.due round = some due) (reason : String) : due.2 ≠ .failing .waiting reason := by
  unfold RoundPhase.due at h
  split at h <;> cases h <;> simp

lemma TaskEffect.keepsUndisturbed (effect : TaskEffect root d token t root' d')
    (undisturbed : d.Undisturbed) (ht : d.tasks token = some t) : d'.Undisturbed := by
  cases effect with
  | proceeds phase same held holds lived lives fails cancels =>
      refine undisturbed.update rfl rfl ?_
      rintro t' ⟨rfl⟩ reason hphase
      have hfired := cancels reason hphase
      rw [undisturbed.unfired] at hfired
      cases hfired
  | opens stream phase opening opened counted =>
      refine undisturbed.update rfl rfl ?_
      rintro t' ⟨rfl⟩ reason
      rw [opened]
      simp
  | appends now due isDue =>
      refine undisturbed.update rfl rfl ?_
      rintro t' ⟨rfl⟩ reason
      exact RoundPhase.ne_failing_of_due isDue reason
  | collects c c' disk collecting next =>
      refine undisturbed.update rfl rfl ?_
      rintro t' ⟨rfl⟩ reason
      simp
  | abandons waits held lived why =>
      refine undisturbed.update rfl rfl ?_
      rintro t' ⟨rfl⟩ reason
      simp
  | dropsLaunching returned counted =>
      refine undisturbed.update rfl rfl ?_
      rintro t' ⟨rfl⟩ reason
      exact undisturbed.goesOn token t reason ht
  | dropsRegistration returned uncounted =>
      refine undisturbed.update rfl rfl ?_
      rintro t' ⟨rfl⟩ reason
      simp
  | dropsSlot deregistered => exact undisturbed.update rfl rfl fun t' h => nomatch h

/-- Left to its own steps, a daemon goes on so. -/
lemma DaemonEffect.keepsUndisturbed {act : DaemonAction}
    (effect : DaemonEffect cfg root d act root' d') (own : act.isOwn = true)
    (undisturbed : d.Undisturbed) : d'.Undisturbed := by
  cases effect with
  | fires b now token serving does => cases own
  | reattaches now b round handle others requeued startup =>
      refine undisturbed.update rfl rfl ?_
      rintro t' ⟨rfl⟩ reason
      simp
  | registers b serving looking queued free =>
      refine undisturbed.update rfl rfl ?_
      rintro t' ⟨rfl⟩ reason
      simp
  | counts token t serving registered mine =>
      refine undisturbed.update rfl rfl ?_
      rintro t' ⟨rfl⟩ reason
      exact undisturbed.goesOn token t reason mine
  | spawns token t serving counted mine =>
      refine undisturbed.update rfl rfl ?_
      rintro t' ⟨rfl⟩ reason
      simp
  | task token t act root' d' mine effect => exact effect.keepsUndisturbed undisturbed mine
  | _ => exact ⟨undisturbed.unfired, undisturbed.goesOn⟩

/-- A queued job's log says the same, and the job is still queued, or says that a round started. -/
def GoesOnTo (root : Root) (a : JobAddress) (root' : Root) : Prop :=
  (lifecycleOf (root'.events a) = lifecycleOf (root.events a) ∧
    standing (root'.events a) = some .requested) ∨
  lifecycleOf (root'.events a) = lifecycleOf (root.events a) ++ [.started]

lemma GoesOnTo.of_same (hs : standing (root.events a) = some .requested)
    (hevents : root'.events a = root.events a) : GoesOnTo root a root' := by
  left
  rw [hevents]
  exact ⟨rfl, hs⟩

/-- What a round records of its queued job, unless it was cancelled. -/
lemma TaskEffect.goesOn (effect : TaskEffect root d token t root' d') (inv : DaemonInv cfg root d)
    (undisturbed : d.Undisturbed) (ht : d.tasks token = some t)
    (hs : standing (root.events a) = some .requested) : GoesOnTo root a root' := by
  by_cases ha : a = t.address
  · subst ha
    have hstands : t.phase.stage ≠ .over → t.phase.stage = .waiting := by
      intro hwork
      have hsame := ((inv.job t.address).atWork token t.crewman (Daemon.crew_of_task ht) hwork).1
      have hstages : Stage.waiting.standing = t.phase.stage.standing :=
        Option.some.inj (hs.symm.trans hsame)
      exact (Stage.standing_injective hstages).symm
    cases effect with
    | appends now due isDue =>
        obtain ⟨hwork, -⟩ := Daemon.advance_of_due (inv.failing token t · · ht) isDue now
        have hwaits := hstands hwork
        right
        rw [Daemon.append_events, if_pos rfl, lifecycleOf_append, lifecycleOf_singleton]
        -- Of the phases in which an event is due, only one that is about to start waits.
        cases hphase : t.phase <;> rw [hphase] at isDue hwaits <;>
          simp only [RoundPhase.due, RoundPhase.stage, reduceCtorEq] at isDue hwaits
        case starting request config =>
          cases config <;> cases isDue <;> rfl
        case failing stage reason =>
          subst hwaits
          exact absurd hphase (undisturbed.goesOn token t reason ht)
    | collects c c' disk collecting next =>
        rw [GoesOnTo, Daemon.writeRound_events, if_pos rfl]
        cases RoundCollection.logEffect_of_next next with
        | none same judged =>
            left
            rw [same]
            exact ⟨rfl, hs⟩
        | progress e appended reports judged =>
            left
            rw [appended, lifecycleOf_append, lifecycleOf_singleton, reports]
            exact ⟨List.append_nil _, (standing_snoc_of_progress reports).trans hs⟩
        | verdict e appended isVerdict unjudged judged =>
            have hlaunched : t.phase.stage = .launched := by
              rw [collecting, Daemon.stage_collecting, if_neg (by simp [unjudged])]
            rw [hlaunched] at hstands
            exact absurd (hstands (by simp)) (by simp)
    | _ => exact .of_same hs rfl
  · exact .of_same hs (effect.frame.events a ha)

/-- What a daemon's own step says of a queued job. -/
lemma DaemonEffect.goesOn {act : DaemonAction} (effect : DaemonEffect cfg root d act root' d')
    (own : act.isOwn = true) (inv : DaemonInv cfg root d) (undisturbed : d.Undisturbed)
    (hs : standing (root.events a) = some .requested) : GoesOnTo root a root' := by
  cases effect with
  | closes b now serving queued free does => cases own
  | closesLost now b round others requeued startup =>
      refine .of_same hs ?_
      have hne : a ≠ b := by
        rintro rfl
        obtain ⟨s, hstands⟩ := (inv.job a).stands
        obtain rfl := started_of_owed hstands (inv.owed_of_startup startup)
        exact absurd (hs.symm.trans hstands) (by simp)
      rw [Daemon.append_events, if_neg hne]
  | records key now base configured submit id request serving holds admitted =>
      refine .of_same hs ?_
      have hne : a ≠ cfg.address key id := by
        rintro rfl
        have hadmits : d.admits cfg (cfg.address key id) = true := by
          simp [Daemon.admits, Config.address, holds, admitted]
        exact absurd (hs.symm.trans ((inv.job _).submits hadmits)) (by simp)
      rw [Daemon.append_events, if_neg hne]
  | task token t act root' d' mine effect => exact effect.goesOn inv undisturbed mine hs
  | _ => exact .of_same hs rfl

end Steps

/-! ## Runs -/

section Runs

variable {cfg : Config} {w w₁ : World} {d : Daemon} {a : JobAddress}

/-- What a daemon does is done in its world. -/
lemma World.run_of_daemon {allowed : Root × Daemon → DaemonAction → Prop} {s s' : Root × Daemon}
    {h : List DaemonAction} (run : Run (Daemon.step cfg) allowed actionsShown s h s') :
    ∃ h', Run (World.step cfg) anyAction actionsShown ⟨s.1, some s.2⟩ h' ⟨s'.1, some s'.2⟩ := by
  induction run with
  | nil => exact ⟨[], .nil _⟩
  | @snoc t u h act run hallowed hstep ih =>
      obtain ⟨h', run'⟩ := ih
      refine ⟨_, run'.snoc (a := .act act) trivial ?_⟩
      show (Daemon.step cfg (t.1, t.2) act).map (fun s => (⟨s.1, some s.2⟩ : World)) = _
      rw [hstep]
      rfl

/-- Left to its own steps, a daemon under which a job is queued starts a round of it before
anything else is said of the job. -/
lemma KeepingJobs.exists_started {s : Root × Daemon} (keeping : KeepingJobs cfg s)
    (hcap : 1 ≤ cfg.maxJobs) (hfinite : {key | s.2.submits key ≠ none}.Finite)
    (undisturbed : s.2.Undisturbed) (hs : standing (s.1.events a) = some .requested) :
    ∃ allowed h s', Run (Daemon.step cfg) allowed actionsShown s h s' ∧
      ∃ more, lifecycleOf (s'.1.events a) = lifecycleOf (s.1.events a) ++ .started :: more := by
  obtain ⟨h, s', run, -, hjudged⟩ := (keeping.settles hcap hfinite).exists_rest
  refine ⟨_, h, s', run, ?_⟩
  have hgone : (KeepingJobs cfg s' ∧ s'.2.Undisturbed) ∧
      ((lifecycleOf (s'.1.events a) = lifecycleOf (s.1.events a) ∧
          standing (s'.1.events a) = some .requested) ∨
        ∃ more, lifecycleOf (s'.1.events a) = lifecycleOf (s.1.events a) ++ .started :: more) := by
    refine run.invariant (I := fun t => (KeepingJobs cfg t ∧ t.2.Undisturbed) ∧
      ((lifecycleOf (t.1.events a) = lifecycleOf (s.1.events a) ∧
          standing (t.1.events a) = some .requested) ∨
        ∃ more, lifecycleOf (t.1.events a) = lifecycleOf (s.1.events a) ++ .started :: more)) ?_
      ⟨⟨keeping, undisturbed⟩, .inl ⟨rfl, hs⟩⟩
    rintro ⟨root, d⟩ act ⟨root', d'⟩ ⟨⟨keeping, undisturbed⟩, hletters⟩ ⟨own, hplaces⟩ hstep
    have effect := DaemonEffect.of_step hstep
    refine ⟨⟨keeping.step own hplaces hstep, effect.keepsUndisturbed own undisturbed⟩, ?_⟩
    rcases hletters with ⟨hsame, hqueued⟩ | ⟨more, hmore⟩
    · rcases effect.goesOn own keeping.daemon undisturbed hqueued with
        ⟨hletters, hqueued'⟩ | hletters
      · exact .inl ⟨hletters.trans hsame, hqueued'⟩
      · exact .inr ⟨[], hletters.trans (by rw [hsame])⟩
    · obtain ⟨later, hlater⟩ := (effect.moves keeping.daemon a).grows
      have hevents : root.events a ++ later = root'.events a := hlater
      refine .inr ⟨more ++ lifecycleOf later, ?_⟩
      dsimp only at hmore ⊢
      rw [← hevents, lifecycleOf_append, hmore, List.append_assoc, List.cons_append]
  rcases hgone.2 with ⟨-, hqueued⟩ | hstarted
  · have hstate : (s'.1.report a).state = .queued := (queued_iff_of_standing hqueued).mpr rfl
    rcases hjudged a with h | h | h <;> rw [hstate] at h <;> cases h
  · exact hstarted

/-- A daemon that starts on its root can bring a queued job to a round, where it finds every job
that is queued or running. -/
lemma RootInv.exists_started {root : Root} (inv : RootInv root) (hcap : 1 ≤ cfg.maxJobs)
    (queued : root.FindsEvery fun report => report.state = .queued)
    (running : root.FindsEvery fun report => report.state = .running)
    (hs : standing (root.events a) = some .requested) :
    ∃ h w', Run (World.step cfg) anyAction actionsShown ⟨root, none⟩ h w' ∧
      ∃ more, lifecycleOf (w'.root.events a) = lifecycleOf (root.events a) ++ .started :: more := by
  have hstart : World.step cfg ⟨root, none⟩ (.start root.jobDirsBelow) =
      some ⟨root, some (.started root root.jobDirsBelow)⟩ := if_pos (List.Perm.refl _)
  have keeping : KeepingJobs cfg (root, .started root root.jobDirsBelow) :=
    .of_start inv (List.Perm.refl _) queued running
  have hnone : {key | (Daemon.started root root.jobDirsBelow).submits key ≠ none} = ∅ := by
    ext key
    simp [Daemon.started]
  obtain ⟨allowed, h, s, run, hstarted⟩ :=
    keeping.exists_started hcap (hnone ▸ Set.finite_empty) (.started root _) hs
  obtain ⟨h', run'⟩ := World.run_of_daemon run
  have hfirst : Run (World.step cfg) anyAction actionsShown ⟨root, none⟩
      [.start root.jobDirsBelow] _ :=
    .snoc (.nil _) trivial hstart
  exact ⟨_, _, hfirst.append run', hstarted⟩

/-- A cancel of a queued job closes it or fires a token, as the cancel table says. -/
lemma DaemonInv.cancel_queued {root : Root} (inv : DaemonInv cfg root d)
    (hqueued : (root.report a).state = .queued) :
    (d.queue.alreadyLaunched a (root.report a) = false ∧
        d.queue.cancel a (a ∈ root.jobDirs) (root.report a) = .closes) ∨
      (d.queue.alreadyLaunched a (root.report a) = true ∧
        ∃ token, d.queue.cancel a (a ∈ root.jobDirs) (root.report a) = .fires token) := by
  have hdir : a ∈ root.jobDirs := inv.mem_of_standing (inv.requested_of_queued hqueued) (by simp)
  simp only [JobQueue.cancel, JobQueue.alreadyLaunched, hdir, decide_true, if_true]
  cases hentry : d.queue.cancels a with
  | none => exact .inl ⟨rfl, by simp [hqueued]⟩
  | some launched =>
      cases hawaited : launched.isAwaitedBy (root.report a) with
      | false => exact .inl ⟨by simp [hawaited], by simp [Option.filter, hawaited, hqueued]⟩
      | true => exact .inr ⟨by simp [hawaited], launched.cancel, by simp [Option.filter, hawaited]⟩

/-- A job closed by a cancel is not launched. -/
lemma WorldInv.neverLaunches_of_closes (inv : WorldInv cfg w) {now : Instant}
    (hd : w.daemon = some d)
    (hqueued : (w.root.report a).state = .queued)
    (hcloses : d.queue.cancel a (a ∈ w.root.jobDirs) (w.root.report a) = .closes)
    (hcancel : World.step cfg w (.act (.cancel a now)) = some w₁) : w₁.NeverLaunches cfg a := by
  intro h w₂ run
  have hidle : standing (w₁.root.events a) = some .idle := by
    have hrequested := (inv.daemon d hd).requested_of_queued hqueued
    simp only [World.step, hd, Option.bind_some, Option.map_eq_some_iff, Daemon.step,
      Daemon.controlStep, hcloses, Option.ite_none_right_eq_some, Option.some.injEq] at hcancel
    obtain ⟨s, ⟨-, rfl⟩, rfl⟩ := hcancel
    rw [Daemon.append_events, if_pos rfl]
    exact standing_snoc_failed hrequested (by simp) now _
  obtain ⟨inv₂, more, hmore⟩ := (inv.step hcancel).run_grows run a
  obtain ⟨s₂, hs₂⟩ := inv₂.root.stands a
  rw [← hmore] at hs₂ ⊢
  exact ⟨lifecycleOf more, lifecycleOf_append _ _,
    not_startsUnasked_of_head (head_of_idle hidle hs₂)⟩

/-- A job whose round was told to stop can be launched all the same, by the daemon
after this one. -/
lemma WorldInv.launches_of_fires (inv : WorldInv cfg w) {now : Instant} {token : Token}
    (hd : w.daemon = some d) (hqueued : (w.root.report a).state = .queued)
    (hfires : d.queue.cancel a (a ∈ w.root.jobDirs) (w.root.report a) = .fires token)
    (hcancel : World.step cfg w (.act (.cancel a now)) = some w₁) (hcap : 1 ≤ cfg.maxJobs)
    (queued : w.root.FindsEvery fun report => report.state = .queued)
    (running : w.root.FindsEvery fun report => report.state = .running) :
    ¬ w₁.NeverLaunches cfg a := by
  have hrequested := (inv.daemon d hd).requested_of_queued hqueued
  obtain ⟨d₁, rfl⟩ : ∃ d₁, w₁ = ⟨w.root, some d₁⟩ := by
    simp only [World.step, hd, Option.bind_some, Option.map_eq_some_iff, Daemon.step,
      Daemon.controlStep, hfires, Option.ite_none_right_eq_some, Option.some.injEq] at hcancel
    obtain ⟨s, ⟨-, rfl⟩, rfl⟩ := hcancel
    exact ⟨_, rfl⟩
  obtain ⟨h, w₂, run, more, hmore⟩ := inv.root.exists_started hcap queued running hrequested
  have hkill : Run (World.step cfg) anyAction actionsShown ⟨w.root, some d₁⟩ [.kill]
      ⟨w.root, none⟩ :=
    .snoc (.nil _) trivial rfl
  intro hnever
  obtain ⟨more', hmore', hunasked⟩ := hnever _ w₂ (hkill.append run)
  have hsame : more' = .started :: more := List.append_cancel_left (hmore'.symm.trans hmore)
  rw [hsame] at hunasked
  exact hunasked (startsUnasked_cons more)

/-- **A job's log is a prefix of finished lifecycles.**  Whatever the daemons of a root do and
wherever they are killed, every job's log is a prefix of a word of `jobWord` and its round numbers
increase: each request starts at most one round and gets at most one verdict.  A cancel of a queued
job is never refused, and a job cancelled so is never launched when the cancel table holds no entry
for its next round; where daemons find their jobs, only then. -/
theorem job_log_lifecycle
    (reached : Reachable (World.step cfg) anyAction (fun w => w = .fresh) w) (a : JobAddress) :
    (∃ word ∈ jobWord.matches', lifecycleOf (w.root.events a) <+: word) ∧
      RoundsIncrease (w.root.events a) ∧
      (∃ requests : List (List Lifecycle), lifecycleOf (w.root.events a) = requests.flatten ∧
        ∀ r ∈ requests, OneRound r) ∧
      ∀ d now w₁, w.daemon = some d → (w.root.report a).state = .queued →
        World.step cfg w (.act (.cancel a now)) = some w₁ →
          (∀ because, d.queue.cancel a (a ∈ w.root.jobDirs) (w.root.report a) ≠ .refuses because) ∧
          (d.queue.alreadyLaunched a (w.root.report a) = false → w₁.NeverLaunches cfg a) ∧
          (1 ≤ cfg.maxJobs → (w.root.FindsEvery fun report => report.state = .queued) →
            (w.root.FindsEvery fun report => report.state = .running) →
              (w₁.NeverLaunches cfg a ↔ d.queue.alreadyLaunched a (w.root.report a) = false)) := by
  have inv := WorldInv.of_reachable reached
  obtain ⟨s, hs⟩ := inv.root.stands a
  refine ⟨exists_word_of_standing hs, inv.root.increase a, exists_oneRounds_of_standing hs, ?_⟩
  intro d now w₁ hd hqueued hcancel
  rcases (inv.daemon d hd).cancel_queued hqueued with ⟨hfree, hcloses⟩ | ⟨hentered, token, hfires⟩
  · have hnever := inv.neverLaunches_of_closes hd hqueued hcloses hcancel
    exact ⟨by simp [hcloses], fun _ => hnever, fun _ _ _ => iff_of_true hnever hfree⟩
  · refine ⟨by simp [hfires], fun hfree => absurd (hentered.symm.trans hfree) (by simp), ?_⟩
    intro hcap queued running
    refine iff_of_false (inv.launches_of_fires hd hqueued hfires hcancel hcap queued running) ?_
    simp [hentered]

/-- The cancel table empty in time, a job cancelled in line and revised is launched once. -/
theorem job_log_lifecycle_revised : ∃ w w₁ h w₂,
    exec (World.step rootConfig) .fresh (daemonRunning (.serve :: submitting 1 0)) = some w ∧
      World.step rootConfig w (.act (.cancel jobAddress 1)) = some w₁ ∧
      Run (World.step rootConfig) anyAction actionsShown w₁ h w₂ ∧
      lifecycleOf (w₂.root.events jobAddress) = [.requested, .failed, .requested, .started] ∧
      (∃ word ∈ jobWord.matches', lifecycleOf (w.root.events jobAddress) <+: word) ∧
      w₁.NeverLaunches rootConfig jobAddress := by
  -- The dispatcher meets the job twice, and launches it once.
  have hdone : ((exec (World.step rootConfig) .fresh
      (daemonRunning (.serve :: submitting 1 0))).bind fun w => w.daemon.bind fun d =>
        if (w.root.report jobAddress).state = .queued ∧
            d.queue.alreadyLaunched jobAddress (w.root.report jobAddress) = false then
          (World.step rootConfig w (.act (.cancel jobAddress 1))).bind fun w₁ =>
            (exec (World.step rootConfig) w₁ (running (revising 1 2 ++ dispatching 0 ++
              [.task 0 (.readConfig (.ok ())), .task 0 (.append 3)]) ++ [.kill])).map
                fun w₂ => lifecycleOf (w₂.root.events jobAddress)
        else none) = some [.requested, .failed, .requested, .started] := by
    decide +kernel
  obtain ⟨w, hw, hserved⟩ := Option.bind_eq_some_iff.mp hdone
  obtain ⟨d, hd, hcancel⟩ := Option.bind_eq_some_iff.mp hserved
  obtain ⟨⟨hqueued, hfree⟩, hafter⟩ := Option.ite_none_right_eq_some.mp hcancel
  obtain ⟨w₁, hw₁, hrest⟩ := Option.bind_eq_some_iff.mp hafter
  obtain ⟨w₂, hw₂, hletters⟩ := Option.map_eq_some_iff.mp hrest
  obtain ⟨hword, -, -, hcancelled⟩ := job_log_lifecycle (.of_exec rfl hw) jobAddress
  obtain ⟨-, hnever, -⟩ := hcancelled d 1 w₁ hd hqueued hw₁
  exact ⟨w, w₁, _, w₂, hw, hw₁, .of_exec hw₂, hletters, hword, hnever hfree⟩

/-- **A job cancelled while it is queued is launched**: its first round is over, and its entry is
still in the table when the job, revised, is cancelled again.  The cancel fires the token of the
round that is over, and the entry is taken out before the dispatcher looks. -/
theorem cancelled_job_launched : ∃ w d w₁,
    exec (World.step pairConfig) .fresh (daemonRunning revisedAtOnce) = some w ∧
      w.daemon = some d ∧ (w.root.report jobAddress).state = .queued ∧
      World.step pairConfig w (.act (.cancel jobAddress 4)) = some w₁ ∧
      d.queue.cancel jobAddress (jobAddress ∈ w.root.jobDirs) (w.root.report jobAddress) =
        .fires 0 ∧
      ¬ w₁.NeverLaunches pairConfig jobAddress := by
  have hdone : ((exec (World.step pairConfig) .fresh (daemonRunning revisedAtOnce)).bind fun w =>
      w.daemon.bind fun d =>
        (World.step pairConfig w (.act (.cancel jobAddress 4))).bind fun w₁ =>
          (exec (World.step pairConfig) w₁ (running ([.task 0 .dropLaunching,
            .task 0 .dropRegistration] ++ dispatching 1 ++
              [.task 1 (.readConfig (.ok ())), .task 1 (.append 5)]))).map fun w₂ =>
                ((w.root.report jobAddress).state,
                  d.queue.cancel jobAddress (jobAddress ∈ w.root.jobDirs)
                    (w.root.report jobAddress),
                  lifecycleOf (w₁.root.events jobAddress),
                  lifecycleOf (w₂.root.events jobAddress))) =
                    some (.queued, .fires 0, [.requested, .failed, .requested],
                      [.requested, .failed, .requested, .started]) := by decide +kernel
  obtain ⟨w, hw, hserved⟩ := Option.bind_eq_some_iff.mp hdone
  obtain ⟨d, hd, hcancel⟩ := Option.bind_eq_some_iff.mp hserved
  obtain ⟨w₁, hw₁, hrest⟩ := Option.bind_eq_some_iff.mp hcancel
  obtain ⟨w₂, hw₂, hall⟩ := Option.map_eq_some_iff.mp hrest
  simp only [Prod.mk.injEq] at hall
  obtain ⟨hqueued, hfires, hbefore, hafter⟩ := hall
  refine ⟨w, d, w₁, hw, hd, hqueued, hw₁, hfires, ?_⟩
  intro hnever
  obtain ⟨more, hmore, hunasked⟩ := hnever _ w₂ (.of_exec hw₂)
  rw [hbefore, hafter] at hmore
  obtain rfl : more = [.started] := by simpa using hmore.symm
  exact hunasked (startsUnasked_cons [])

end Runs

end AssemblyLine
