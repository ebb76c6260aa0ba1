import AssemblyLine.Daemon.Moves

/-!
# What a job's log holds, whatever is done to its daemons

A daemon is killed at any step and the next one starts from what it reads on the root.  `RootInv`
is what a root keeps between daemons, and is all a starting one needs (`DaemonInv.started`); so
the invariant of a daemon at work holds across kills and restarts (`WorldInv.of_reachable`), and
with it every log is one of finished lifecycles and of what a job has pending
(`RootInv.stands`, `exists_word_of_standing`).
-/

namespace AssemblyLine

/-- What a root keeps between daemons. -/
structure RootInv (root : Root) : Prop where
  stands : ∀ a, ∃ s, standing (root.events a) = some s
  increase : ∀ a, RoundsIncrease (root.events a)
  /-- A job that has no directory has no log. -/
  absent : ∀ a, a ∉ root.jobDirs → root.events a = []
  dirs : root.jobDirs.Nodup

lemma RootInv.empty : RootInv .empty :=
  ⟨fun _ => ⟨.idle, rfl⟩, fun _ => List.Pairwise.nil, fun _ _ => rfl, List.nodup_nil⟩

/-! ## A starting daemon -/

section Starting

variable {root : Root} {walk : List JobAddress} {a : JobAddress} {r : Resumption}

/-- A job owed something under the root is one that names a remote, with what its log says. -/
lemma mem_owedUnder {report : JobReport} : (a, report, r) ∈ Daemon.owedUnder root walk ↔
    a ∈ walk ∧ report = root.report a ∧ report.remoteUrl.isSome ∧
      Resumption.forReport report = some r := by
  simp only [Daemon.owedUnder, Root.jobsUnder, List.mem_filterMap, List.mem_filter, List.mem_map,
    Option.map_eq_some_iff, Prod.mk.injEq]
  constructor
  · rintro ⟨job, ⟨⟨b, hb, rfl⟩, hremote⟩, owed, howed, rfl, rfl, rfl⟩
    exact ⟨hb, rfl, hremote, howed⟩
  · rintro ⟨ha, rfl, hremote, howed⟩
    exact ⟨_, ⟨⟨a, ha, rfl⟩, hremote⟩, r, howed, rfl, rfl, rfl⟩

/-- A job is met once on a walk, and so is owed one thing. -/
lemma nodup_owedUnder (hwalk : walk.Nodup) :
    ((Daemon.owedUnder root walk).map Prod.fst).Nodup := by
  simp only [Daemon.owedUnder, Root.jobsUnder, List.filter_map, List.filterMap_map,
    List.map_filterMap]
  refine (hwalk.filter _).filterMap ?_
  intro a a' b ha ha'
  simp only [Function.comp, Option.map_map, Option.mem_def, Option.map_eq_some_iff] at ha ha'
  obtain ⟨owed, -, rfl⟩ := ha
  obtain ⟨owed', -, hsame⟩ := ha'
  exact hsame.symm

lemma requeueOrder_perm (requeued : List (JobAddress × JobReport × Resumption)) :
    (Daemon.requeueOrder requeued).Perm (requeued.map Prod.fst) :=
  (List.mergeSort_perm requeued _).map Prod.fst

/-- What a starting daemon owes a job is what the job's log says. -/
lemma started_owes : (Daemon.started root walk).owes a = some r →
    a ∈ walk ∧ Resumption.forReport (root.report a) = some r := by
  intro howes
  simp only [Daemon.owes, Daemon.started, Startup.owes] at howes
  rcases Option.or_eq_some_iff.mp howes with hfound | ⟨-, hrequeued⟩
  · simp only [Option.map_eq_some_iff] at hfound
    obtain ⟨⟨b, r'⟩, hfind, rfl⟩ := hfound
    obtain rfl : b = a := by simpa using List.find?_some hfind
    have hmem := List.mem_of_find?_eq_some hfind
    simp only [List.mem_map, List.mem_filter, Prod.mk.injEq] at hmem
    obtain ⟨⟨b', report, r''⟩, ⟨hjob, -⟩, rfl, rfl⟩ := hmem
    obtain ⟨ha, rfl, -, hreport⟩ := mem_owedUnder.mp hjob
    exact ⟨ha, hreport⟩
  · simp only [Option.ite_none_right_eq_some, Option.some.injEq] at hrequeued
    obtain ⟨hmem, rfl⟩ := hrequeued
    rw [(requeueOrder_perm _).mem_iff] at hmem
    simp only [List.mem_map, List.mem_filter, decide_eq_true_eq] at hmem
    obtain ⟨⟨b', report, r''⟩, ⟨hjob, rfl⟩, rfl⟩ := hmem
    obtain ⟨ha, rfl, -, hreport⟩ := mem_owedUnder.mp hjob
    exact ⟨ha, hreport⟩

/-- It owes every job something whose log says so and names a remote. -/
lemma started_owes_of_mem (ha : a ∈ walk) (hremote : (root.report a).remoteUrl.isSome)
    (howed : Resumption.forReport (root.report a) = some r) :
    (Daemon.started root walk).owes a ≠ none := by
  have hjob : (a, root.report a, r) ∈ Daemon.owedUnder root walk :=
    mem_owedUnder.mpr ⟨ha, rfl, hremote, howed⟩
  simp only [Daemon.owes, Daemon.started, Startup.owes, ne_eq, Option.or_eq_none_iff, not_and]
  intro hnone
  by_cases hrequeue : r = .requeue
  · have hmem : a ∈ Daemon.requeueOrder
        ((Daemon.owedUnder root walk).filter fun job => job.2.2 = .requeue) := by
      rw [(requeueOrder_perm _).mem_iff]
      exact List.mem_map.mpr ⟨_, List.mem_filter.mpr ⟨hjob, by simpa using hrequeue⟩, rfl⟩
    rw [if_pos hmem]
    simp
  · rw [Option.map_eq_none_iff, List.find?_eq_none] at hnone
    have hmem : (a, r) ∈ ((Daemon.owedUnder root walk).filter fun job =>
        job.2.2 ≠ .requeue).map fun job => (job.1, job.2.2) :=
      List.mem_map.mpr ⟨_, List.mem_filter.mpr ⟨hjob, by simpa using hrequeue⟩, rfl⟩
    exact absurd (decide_eq_true rfl) (hnone (a, r) hmem)

/-- It owes each job one thing. -/
lemma started_once (hwalk : walk.Nodup) (others : List (JobAddress × Resumption))
    (requeued : List JobAddress)
    (hstartup : (Daemon.started root walk).startup = .resuming others requeued) :
    (others.map Prod.fst ++ requeued).Nodup := by
  simp only [Daemon.started, Startup.resuming.injEq] at hstartup
  obtain ⟨rfl, rfl⟩ := hstartup
  -- The two lists partition what is owed.
  have hothers : (((Daemon.owedUnder root walk).filter fun job => job.2.2 ≠ .requeue).map
      fun job => (job.1, job.2.2)).map Prod.fst =
        ((Daemon.owedUnder root walk).filter fun job =>
          !decide (job.2.2 = .requeue)).map Prod.fst := by
    rw [List.map_map]
    simp [Function.comp]
  have hperm := (List.filter_append_perm (fun job : JobAddress × JobReport × Resumption =>
    decide (job.2.2 = .requeue)) (Daemon.owedUnder root walk)).map Prod.fst
  rw [List.map_append] at hperm
  rw [hothers]
  refine (List.Perm.nodup_iff ?_).mpr (@nodup_owedUnder root walk hwalk)
  exact (List.perm_append_comm.trans ((requeueOrder_perm _).append_right _)).trans hperm

/-- A job that stands anywhere but at its beginning has a directory and a log. -/
lemma RootInv.mem_of_standing (inv : RootInv root) {s : Standing}
    (hs : standing (root.events a) = some s) (hne : s ≠ .idle) :
    a ∈ root.jobDirs ∧ root.events a ≠ [] := by
  have hlogged : root.events a ≠ [] := by
    intro hnone
    rw [hnone, standing_nil, Option.some.injEq] at hs
    exact hne hs.symm
  exact ⟨by_contra fun habsent => hlogged (inv.absent a habsent), hlogged⟩

/-- A starting daemon owes every job something that it finds with a request to close. -/
lemma started_owes_of_standing (inv : RootInv root) (hwalk : walk.Perm root.jobDirsBelow)
    (houter : root.Outermost a) {s : Standing} (hs : standing (root.events a) = some s)
    (hne : s ≠ .idle) (howed : owed a.id (root.events a) = some r) :
    (Daemon.started root walk).owes a = some r := by
  obtain ⟨hdir, hlogged⟩ := inv.mem_of_standing hs hne
  have hmem : a ∈ walk := hwalk.mem_iff.mpr (Root.mem_jobDirsBelow.mpr ⟨hdir, hlogged, houter⟩)
  have hrequest := JobProgress.hasRequest_of_mem (requested_mem_of_standing hs hne)
  obtain ⟨r', hr'⟩ := Option.ne_none_iff_exists'.mp (started_owes_of_mem hmem hrequest.1 howed)
  rw [hr', ← howed]
  exact (started_owes hr').2.symm

/-- It owes nothing to a job below another one's directory, which the walk does not find. -/
lemma started_owes_of_not_outermost (hwalk : walk.Perm root.jobDirsBelow)
    (hbelow : ¬ root.Outermost a) : (Daemon.started root walk).owes a = none := by
  by_contra howes
  obtain ⟨r, hr⟩ := Option.ne_none_iff_exists'.mp howes
  have hfound := Root.mem_jobDirsBelow.mp (hwalk.mem_iff.mp (started_owes hr).1)
  exact hbelow hfound.2.2

/-- What a starting daemon needs of its root. -/
theorem DaemonInv.started (cfg : Config) (inv : RootInv root)
    (hwalk : walk.Perm root.jobDirsBelow) :
    DaemonInv cfg root (Daemon.started root walk) where
  fresh _ _ := rfl
  inHand _ _ h := nomatch h
  hand _ h := nomatch h
  failing _ _ _ _ h := nomatch h
  absent := inv.absent
  tasked _ _ h := nomatch h
  submitted _ _ _ h := nomatch h
  once := started_once (hwalk.nodup_iff.mpr (inv.dirs.filter _))
  others others requeued h job hjob := by
    simp only [Daemon.started, Startup.resuming.injEq] at h
    rw [← h.1] at hjob
    obtain ⟨owed, howed, rfl⟩ := List.mem_map.mp hjob
    simpa using (List.mem_filter.mp howed).2
  job a := by
    have hcrew : ∀ token, (Daemon.started root walk).crew a token = none := fun _ => rfl
    exact
      { stands := inv.stands a
        increase := inv.increase a
        atWork := fun token m hm => nomatch (hcrew token).symm.trans hm
        bound := fun token m hm => nomatch (hcrew token).symm.trans hm
        next := fun token m hm => nomatch (hcrew token).symm.trans hm
        unique := fun token m _ _ hm => nomatch (hcrew token).symm.trans hm
        entered := fun _ h => nomatch h
        submits := fun h => nomatch h
        owes := fun r hr => ⟨(started_owes hr).2, hcrew, rfl⟩ }

end Starting

/-! ## Across kills and restarts -/

/-- What always holds of a root and the daemon running on it. -/
structure WorldInv (cfg : Config) (w : World) : Prop where
  root : RootInv w.root
  daemon : ∀ d, w.daemon = some d → DaemonInv cfg w.root d

section Worlds

variable {cfg : Config} {w w' : World}

/-- A daemon at work leaves its root as the next one needs it. -/
lemma DaemonInv.rootInv {root : Root} {d : Daemon} (inv : DaemonInv cfg root d)
    (hdirs : root.jobDirs.Nodup) : RootInv root :=
  ⟨fun a => (inv.job a).stands, fun a => (inv.job a).increase, inv.absent, hdirs⟩

/-- Registered rounds of one job with one number are one. -/
lemma DaemonInv.registered_unique {root : Root} {d : Daemon} (inv : DaemonInv cfg root d)
    {token token' : Token} {t t' : RoundTask} (ht : d.tasks token = some t)
    (ht' : d.tasks token' = some t') (haddress : t'.address = t.address)
    (hround : t'.round = t.round) (hheld : t.phase.isRegistered = true)
    (hheld' : t'.phase.isRegistered = true) : token' = token := by
  have hcrew' : d.crew t.address token' = some t'.crewman := by
    rw [← haddress]
    exact Daemon.crew_of_task ht'
  exact (inv.job t.address).unique token' t'.crewman token t.crewman hcrew'
    (Daemon.crew_of_task ht) hheld' hheld hround

lemma DaemonEffect.keepsDirs {root root' : Root} {d d' : Daemon} {act : DaemonAction}
    (effect : DaemonEffect cfg root d act root' d') (hdirs : root.jobDirs.Nodup) :
    root'.jobDirs.Nodup := by
  cases effect with
  | creates key id submission serving holding new =>
      exact List.Nodup.append hdirs (List.nodup_singleton _) (by simpa using new)
  | task token t act root' d' mine effect =>
      rw [effect.frame.jobDirs]
      exact hdirs
  | _ => exact hdirs

/-- What a start does: a daemon reads every job it finds, in some order. -/
lemma World.of_start {walk : List JobAddress} (h : World.step cfg w (.start walk) = some w') :
    w.daemon = none ∧ walk.Perm w.root.jobDirsBelow ∧
      w' = ⟨w.root, some (.started w.root walk)⟩ := by
  simp only [World.step] at h
  split at h
  · rename_i hnone
    simp only [Option.ite_none_right_eq_some, Option.some.injEq] at h
    exact ⟨hnone, h.1, h.2.symm⟩
  · cases h

/-- What a kill does. -/
lemma World.of_kill (h : World.step cfg w .kill = some w') : w' = ⟨w.root, none⟩ := by
  simp only [World.step, Option.map_eq_some_iff] at h
  obtain ⟨d, -, rfl⟩ := h
  rfl

/-- What a step of the running daemon does. -/
lemma World.of_act {act : DaemonAction} (h : World.step cfg w (.act act) = some w') :
    ∃ d root' d', w.daemon = some d ∧ Daemon.step cfg (w.root, d) act = some (root', d') ∧
      w' = ⟨root', some d'⟩ := by
  simp only [World.step, Option.bind_eq_some_iff, Option.map_eq_some_iff] at h
  obtain ⟨d, hd, ⟨root', d'⟩, hstep, rfl⟩ := h
  exact ⟨d, root', d', hd, hstep, rfl⟩

/-- **Kills and restarts included, every step keeps the invariant.** -/
theorem WorldInv.step (inv : WorldInv cfg w) {act : WorldAction}
    (h : World.step cfg w act = some w') : WorldInv cfg w' := by
  cases act with
  | start walk =>
      obtain ⟨-, hwalk, rfl⟩ := World.of_start h
      refine ⟨inv.root, ?_⟩
      rintro d ⟨rfl⟩
      exact .started cfg inv.root hwalk
  | kill =>
      obtain rfl := World.of_kill h
      refine ⟨inv.root, ?_⟩
      intro d hd
      cases hd
  | act act =>
      obtain ⟨d, root', d', hd, hstep, rfl⟩ := World.of_act h
      have hdaemon := (inv.daemon d hd).step hstep
      refine ⟨hdaemon.rootInv ((DaemonEffect.of_step hstep).keepsDirs inv.root.dirs), ?_⟩
      rintro d'' ⟨rfl⟩
      exact hdaemon

theorem WorldInv.of_reachable {allowed : World → WorldAction → Prop}
    (reached : Reachable (World.step cfg) allowed (fun w => w = .fresh) w) : WorldInv cfg w := by
  refine reached.invariant ?_ fun w act w' inv _ hstep => inv.step hstep
  rintro w rfl
  exact ⟨.empty, fun d hd => nomatch hd⟩

/-- **A job's round count is the number of its rounds that have started**, and so is no more than
its log is long. -/
theorem rounds_counted {allowed : World → WorldAction → Prop}
    (reached : Reachable (World.step cfg) allowed (fun w => w = .fresh) w) (a : JobAddress) :
    (w.root.report a).rounds = (startedRounds (w.root.events a)).length := by
  have hboth : WorldInv cfg w ∧ ∀ a, (JobProgress.ofEvents (w.root.events a)).rounds =
      (startedRounds (w.root.events a)).length := by
    refine reached.invariant (I := fun w => WorldInv cfg w ∧ ∀ a,
      (JobProgress.ofEvents (w.root.events a)).rounds =
        (startedRounds (w.root.events a)).length) ?_ ?_
    · rintro w rfl
      exact ⟨⟨.empty, fun d hd => nomatch hd⟩, fun a => rfl⟩
    · rintro w act w' ⟨inv, counted⟩ - hstep
      refine ⟨inv.step hstep, fun a => ?_⟩
      cases act with
      | start walk =>
          obtain ⟨-, -, rfl⟩ := World.of_start hstep
          exact counted a
      | kill =>
          obtain rfl := World.of_kill hstep
          exact counted a
      | act act =>
          obtain ⟨d, root', d', hd, hact, rfl⟩ := World.of_act hstep
          have hdaemon := inv.daemon d hd
          exact ((DaemonEffect.of_step hact).moves hdaemon a).counted (hdaemon.job a) (counted a)
  exact hboth.2 a

/-- The rule for what holds of a daemon at work: it holds when a daemon is allowed to start, and
every allowed step keeps it. -/
theorem World.daemon_invariant {allowed : World → WorldAction → Prop} {I : Root → Daemon → Prop}
    (reached : Reachable (World.step cfg) allowed (fun w => w = .fresh) w)
    (start : ∀ root walk, RootInv root → walk.Perm root.jobDirsBelow →
      allowed ⟨root, none⟩ (.start walk) → I root (.started root walk))
    (keeps : ∀ root d act root' d', DaemonInv cfg root d → I root d →
      allowed ⟨root, some d⟩ (.act act) → DaemonEffect cfg root d act root' d' → I root' d') :
    ∀ d, w.daemon = some d → I w.root d := by
  refine (reached.invariant (I := fun w => WorldInv cfg w ∧ ∀ d, w.daemon = some d → I w.root d)
    ?_ ?_).2
  · rintro w rfl
    exact ⟨⟨.empty, fun d hd => nomatch hd⟩, fun d hd => nomatch hd⟩
  · rintro ⟨root, daemon⟩ act w' ⟨inv, hI⟩ hallowed hstep
    refine ⟨inv.step hstep, ?_⟩
    cases act with
    | start walk =>
        obtain ⟨rfl, hwalk, rfl⟩ := World.of_start hstep
        rintro d ⟨rfl⟩
        exact start root walk inv.root hwalk hallowed
    | kill =>
        obtain rfl := World.of_kill hstep
        intro d hd
        cases hd
    | act act =>
        obtain ⟨d, root', d', rfl, heffect, rfl⟩ := World.of_act hstep
        rintro d'' ⟨rfl⟩
        exact keeps root d act root' d' (inv.daemon d rfl) (hI d rfl) hallowed (.of_step heffect)

/-- Every job at this stage has a round at work on it, or is owed one. -/
def Daemon.Attends (cfg : Config) (root : Root) (d : Daemon) (stage : Stage) : Prop :=
  ∀ a, (d.view cfg root a).Attended stage

lemma Daemon.Attends.of_effect {root root' : Root} {d d' : Daemon} {act : DaemonAction}
    {stage : Stage}
    (attends : d.Attends cfg root stage) (inv : DaemonInv cfg root d)
    (hstage : stage = .started ∨ stage = .launched)
    (effect : DaemonEffect cfg root d act root' d') :
    d'.Attends cfg root' stage :=
  fun a => (attends a).move (inv.job a) hstage (effect.moves inv a)

/-- A daemon that finds every job at a stage owes each of them what becomes of its round. -/
lemma Daemon.Attends.started {root : Root} {walk : List JobAddress} {stage : Stage}
    (inv : RootInv root) (hwalk : walk.Perm root.jobDirsBelow)
    (hstage : stage = .started ∨ stage = .launched)
    (finds : ∀ a ∈ root.jobDirs, standing (root.events a) = some stage.standing →
      root.Outermost a) :
    (Daemon.started root walk).Attends cfg root stage := by
  intro a hs
  left
  have hs' : standing (root.events a) = some stage.standing := hs
  have hne : stage.standing ≠ .idle := by
    rcases hstage with rfl | rfl <;> simp [Stage.standing]
  have houter := finds a (inv.mem_of_standing hs' hne).1 hs'
  obtain ⟨r, howed⟩ : ∃ r, owed a.id (root.events a) = some r := by
    rcases hstage with rfl | rfl
    · exact ⟨_, owed_of_standing_started hs'⟩
    · obtain ⟨handle, -, howed⟩ := @owed_of_standing_launched a.id _ hs'
      exact ⟨_, howed⟩
  show (Daemon.started root walk).owes a ≠ none
  rw [started_owes_of_standing inv hwalk houter hs' hne howed]
  simp

/-- Where every start finds the jobs at a stage, a daemon attends to them. -/
theorem World.attends {allowed : World → WorldAction → Prop} {d : Daemon} {stage : Stage}
    (reached : Reachable (World.step cfg) allowed (fun w => w = .fresh) w)
    (hstage : stage = .started ∨ stage = .launched)
    (finds : ∀ root walk, allowed ⟨root, none⟩ (.start walk) → ∀ a ∈ root.jobDirs,
      standing (root.events a) = some stage.standing → root.Outermost a)
    (hd : w.daemon = some d) : d.Attends cfg w.root stage := by
  refine World.daemon_invariant (I := fun root d => d.Attends cfg root stage) reached ?_ ?_ d hd
  · intro root walk inv hwalk hallowed
    exact .started inv hwalk hstage (finds root walk hallowed)
  · intro root d act root' d' inv attends _ effect
    exact attends.of_effect inv hstage effect

/-- No step of any daemon, and no kill, takes anything out of a log. -/
lemma WorldInv.grows (inv : WorldInv cfg w) {act : WorldAction}
    (h : World.step cfg w act = some w') (a : JobAddress) :
    w.root.events a <+: w'.root.events a := by
  cases act with
  | start walk =>
      obtain ⟨-, -, rfl⟩ := World.of_start h
      exact List.prefix_refl _
  | kill =>
      obtain rfl := World.of_kill h
      exact List.prefix_refl _
  | act act =>
      obtain ⟨d, root', d', hd, hstep, rfl⟩ := World.of_act h
      exact ((DaemonEffect.of_step hstep).moves (inv.daemon d hd) a).grows

/-- The same of a whole run. -/
lemma WorldInv.run_grows {shown : World → WorldAction → List WorldAction} {h : List WorldAction}
    (inv : WorldInv cfg w) (run : Run (World.step cfg) anyAction shown w h w') (a : JobAddress) :
    WorldInv cfg w' ∧ w.root.events a <+: w'.root.events a := by
  refine run.invariant (I := fun t => WorldInv cfg t ∧ w.root.events a <+: t.root.events a) ?_
    ⟨inv, List.prefix_refl _⟩
  rintro t act u ⟨ht, hgrown⟩ _ hstep
  exact ⟨ht.step hstep, hgrown.trans (ht.grows hstep a)⟩

/-! ### One job and the steps of its daemon -/

/-- A root at `/` and a cap of one. -/
def rootConfig : Config := ⟨[], 1⟩

def repoKey : RepoKey := ⟨[]⟩

def jobAddress : JobAddress := rootConfig.address repoKey 1

/-- A submit of a new job, until the job is in line. -/
def submittingTo (key : RepoKey) (remoteUrl : String) (id : ℕ) (now : Instant) :
    List DaemonAction :=
  [.hold key ⟨remoteUrl, "do it", none, none⟩, .createJob key id,
    .recordRequest key now ⟨"main", "c0ffee"⟩ none, .enqueue key]

def submitting (id : ℕ) (now : Instant) : List DaemonAction :=
  submittingTo repoKey "https://example/repo" id now

/-- A revise of a job, until the job is in line. -/
def revising (id : ℕ) (now : Instant) : List DaemonAction :=
  [.hold repoKey ⟨"https://example/repo", "do it again", some id, none⟩, .continueJob repoKey,
    .recordRequest repoKey now ⟨"main", "c0ffee"⟩ none, .enqueue repoKey]

/-- The dispatcher takes the job it receives to the config its round, `token`, waits for. -/
def dispatching (token : Token) : List DaemonAction :=
  [.receive, .slotFree, .look, .countLaunching, .spawn, .task token .readRequest]

lemma deliveredStream_reportsOnce : ReportsOnce (deliveredStream.filterMap Line.event?) where
  reports := by decide
  once := by decide

/-- What a launched round streams: its work, its verdict and its pull request. -/
def roundStream : RoundStream := ⟨deliveredStream, deliveredStream_reportsOnce⟩

/-- Steps of the daemon that is running. -/
def running (acts : List DaemonAction) : List WorldAction := acts.map .act

/-- A daemon starts on a root without jobs, and takes these steps. -/
def daemonRunning (acts : List DaemonAction) : List WorldAction := .start [] :: running acts

end Worlds

end AssemblyLine
