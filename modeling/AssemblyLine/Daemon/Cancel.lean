import AssemblyLine.Daemon.Places

/-!
# What a cancel reaches

Two rounds of one job can have tasks at once: an older one, past its verdict and still delivering,
and the one the job is running.  The cancel table has one entry for the job, and dropping either
round's registration takes out an entry by its number alone.  `cancel_reaches_round` says that the
entry of a running job is always that of the round it is running, so that is the round a cancel
stops, and that a cancel of a job with its verdict does nothing.
-/

namespace AssemblyLine

section Entries

variable {cfg : Config} {root : Root} {d : Daemon} {token : Token} {t : RoundTask}

/-- While a job is running, the round at work on it is the one in the cancel table. -/
lemma DaemonInv.entry_of_running (inv : DaemonInv cfg root d) (ht : d.tasks token = some t)
    (hwork : t.phase.stage ≠ .over) (hrunning : (root.report t.address).state = .running) :
    t.round = (root.report t.address).rounds ∧
      d.queue.cancels t.address = some ⟨t.round, token⟩ := by
  obtain ⟨hstands, hround, -, -, hentry⟩ :=
    (inv.job t.address).atWork token t.crewman (Daemon.crew_of_task ht) hwork
  refine ⟨?_, hentry⟩
  have hstarted : t.crewman.stage ≠ .waiting := by
    intro hwaiting
    rcases (running_iff_of_standing hstands).mp hrunning with h | h <;>
      rw [hwaiting] at h <;> cases h
  rw [if_neg hstarted] at hround
  exact hround

/-- A cancel of a job whose entry is the round it is running fires that round's token. -/
lemma JobQueue.cancel_fires {queue : JobQueue} {a : JobAddress} {report : JobReport}
    (hentry : queue.cancels a = some ⟨report.rounds, token⟩) (hrunning : report.state = .running) :
    queue.cancel a true report = .fires token := by
  have hawaited : LaunchedRound.isAwaitedBy ⟨report.rounds, token⟩ report = true := by
    simp [LaunchedRound.isAwaitedBy, hrunning]
  rw [JobQueue.cancel, if_pos rfl, hentry, Option.filter_some, if_pos hawaited]

/-- Nobody waits on a round of a job that has its verdict. -/
lemma JobQueue.cancel_refuses (queue : JobQueue) (a : JobAddress) {report : JobReport}
    (hjudged : report.state = .passed ∨ report.state = .failed) (known : Bool) :
    ∃ because, queue.cancel a known report = .refuses because := by
  have hunawaited : ∀ launched : LaunchedRound, launched.isAwaitedBy report = false := by
    intro launched
    rcases hjudged with h | h <;> simp [LaunchedRound.isAwaitedBy, h]
  unfold JobQueue.cancel
  cases known with
  | false => exact ⟨_, rfl⟩
  | true => rcases hjudged with h | h <;> simp [hunawaited, h]

/-- What dropping a registration does. -/
lemma Daemon.of_dropRegistration {s : Root × Daemon}
    (h : Daemon.step cfg (root, d) (.task token .dropRegistration) = some s) :
    ∃ t, d.tasks token = some t ∧ t.phase = .returned ∧
      s.2.queue = d.queue.deregister t.address t.round := by
  obtain ⟨t, ht, hstep⟩ := Option.bind_eq_some_iff.mp h
  obtain ⟨hphase, -, -, hafter⟩ := Daemon.taskStep_dropRegistration hstep
  exact ⟨t, ht, hphase, by rw [hafter]⟩

/-- Dropping the registration of one round of a job takes no other round's entry out. -/
lemma DaemonInv.cancels_of_dropRegistration (inv : DaemonInv cfg root d) {token' : Token}
    {s : Root × Daemon} (ht : d.tasks token = some t) (hwork : t.phase.stage ≠ .over)
    (hne : token' ≠ token)
    (h : Daemon.step cfg (root, d) (.task token' .dropRegistration) = some s) :
    s.2.queue.cancels t.address = d.queue.cancels t.address := by
  obtain ⟨t', ht', hphase, hqueue⟩ := Daemon.of_dropRegistration h
  rw [hqueue, Daemon.deregister_cancels]
  split_ifs with hsame hdrops
  · -- Two registered rounds of one job never have one number.
    obtain ⟨-, -, -, hregistered, hentry⟩ :=
      (inv.job t.address).atWork token t.crewman (Daemon.crew_of_task ht) hwork
    have hentry' : d.queue.cancels t.address = some ⟨t.round, token⟩ := hentry
    have hround : t.round = t'.round := by simpa [hentry'] using hdrops
    exact absurd (inv.registered_unique ht ht' hsame.symm hround.symm hregistered
      (by rw [hphase]; rfl)) hne
  · rfl
  · rfl

end Entries

section Reached

variable {cfg : Config} {w : World} {d : Daemon}

/-- **A cancel of a running job reaches its own round.**  In every state of a daemon, the cancel
table has a running job's entry for the round at work on it, whichever of its older rounds still
have tasks: a cancel fires that round's token and does nothing else, and dropping any other
registration leaves the entry.  A cancel of a job with its verdict does nothing. -/
theorem cancel_reaches_round
    (reached : Reachable (World.step cfg) anyAction (fun w => w = .fresh) w)
    (hd : w.daemon = some d) (a : JobAddress) :
    (∀ token t, d.tasks token = some t → t.address = a → t.phase.stage ≠ .over →
      (w.root.report a).state = .running →
        t.round = (w.root.report a).rounds ∧
        d.queue.cancels a = some ⟨(w.root.report a).rounds, token⟩ ∧
        d.queue.cancel a (a ∈ w.root.jobDirs) (w.root.report a) = .fires token ∧
        (∀ now s, Daemon.step cfg (w.root, d) (.cancel a now) = some s →
          s = (w.root, { d with fired := Function.update d.fired token true })) ∧
        ∀ token' s, token' ≠ token →
          Daemon.step cfg (w.root, d) (.task token' .dropRegistration) = some s →
            s.2.queue.cancels a = d.queue.cancels a) ∧
      ((w.root.report a).state = .passed ∨ (w.root.report a).state = .failed →
        (∃ because,
          d.queue.cancel a (a ∈ w.root.jobDirs) (w.root.report a) = .refuses because) ∧
        ∀ now s, Daemon.step cfg (w.root, d) (.cancel a now) = some s → s = (w.root, d)) := by
  have inv := (WorldInv.of_reachable reached).daemon d hd
  constructor
  · rintro token t ht rfl hwork hrunning
    obtain ⟨hround, hentry⟩ := inv.entry_of_running ht hwork hrunning
    rw [hround] at hentry
    have hfires : d.queue.cancel t.address (t.address ∈ w.root.jobDirs) (w.root.report t.address) =
        .fires token := by
      rw [decide_eq_true (inv.tasked token t ht)]
      exact JobQueue.cancel_fires hentry hrunning
    refine ⟨hround, hentry, hfires, ?_, ?_⟩
    · intro now s hstep
      simp only [Daemon.step, Daemon.controlStep, hfires, Option.ite_none_right_eq_some,
        Option.some.injEq] at hstep
      exact hstep.2.symm
    · intro token' s hne hstep
      exact inv.cancels_of_dropRegistration ht hwork hne hstep
  · intro hjudged
    obtain ⟨because, hrefuses⟩ :=
      JobQueue.cancel_refuses d.queue a hjudged (a ∈ w.root.jobDirs)
    refine ⟨⟨because, hrefuses⟩, ?_⟩
    intro now s hstep
    simp only [Daemon.step, Daemon.controlStep, hrefuses, Option.ite_none_right_eq_some,
      Option.some.injEq] at hstep
    exact hstep.2.symm

/-- A job's first round has its verdict and is still delivering; the job is revised, and its second
round starts. -/
def revisedWhileDelivering : List DaemonAction :=
  .serve :: (submitting 1 0 ++ dispatching 0 ++
    [.task 0 (.readConfig (.ok ())), .task 0 (.append 1),
      .task 0 (.launchReturns (.ok (.docker "round", roundStream))),
      .task 0 (.append 2), .task 0 .startCollecting] ++ List.replicate 6 (.task 0 .collect) ++
    revising 1 3 ++ dispatching 1 ++ [.task 1 (.readConfig (.ok ())), .task 1 (.append 4)])

/-- The cancel reaches the second round, not the one still delivering. -/
theorem cancel_reaches_round_revised : ∃ w d t,
    exec (World.step pairConfig) .fresh (daemonRunning revisedWhileDelivering) = some w ∧
      w.daemon = some d ∧ d.tasks 0 = some t ∧ t.address = jobAddress ∧ t.round = 1 ∧
      d.queue.cancels jobAddress = some ⟨2, 1⟩ ∧
      ∀ now s, Daemon.step pairConfig (w.root, d) (.cancel jobAddress now) = some s →
        s = (w.root, { d with fired := Function.update d.fired 1 true }) := by
  have hdone : ((exec (World.step pairConfig) .fresh (daemonRunning revisedWhileDelivering)).bind
      fun w => w.daemon.bind fun d => (d.tasks 0).bind fun t => (d.tasks 1).map fun t' =>
        ((decide (t.address = jobAddress), t.round),
          (decide (t'.address = jobAddress), decide (t'.phase.stage = .over)),
            (w.root.report jobAddress).state, (w.root.report jobAddress).rounds)) =
          some ((true, 1), (true, false), .running, 2) := by decide +kernel
  obtain ⟨w, hw, hd⟩ := Option.bind_eq_some_iff.mp hdone
  obtain ⟨d, hd, ht⟩ := Option.bind_eq_some_iff.mp hd
  obtain ⟨t, ht, ht'⟩ := Option.bind_eq_some_iff.mp ht
  obtain ⟨t', ht', hseen⟩ := Option.map_eq_some_iff.mp ht'
  simp only [Prod.mk.injEq, decide_eq_true_eq, decide_eq_false_iff_not] at hseen
  obtain ⟨⟨haddress, hround⟩, ⟨haddress', hwork⟩, hrunning, hrounds⟩ := hseen
  obtain ⟨hreaches, -⟩ := cancel_reaches_round (.of_exec rfl hw) hd jobAddress
  obtain ⟨-, hentry, -, hfires, -⟩ := hreaches 1 t' ht' haddress' hwork hrunning
  rw [hrounds] at hentry
  exact ⟨w, d, t, hw, hd, ht, haddress, hround, hentry, hfires⟩

end Reached

end AssemblyLine
