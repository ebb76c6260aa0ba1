import AssemblyLine.Daemon.JobLog

/-!
# The slots and the launches

A daemon keeps two tallies of its rounds' tasks: `running`, of those under the cap, and
`launching`, of those a stop waits for.  `SlotsInv` says that each equals the number of tasks that
hold it, and where the tally a stop waits for is held: by every task from before its round starts
until the round is launched or over.  `cap_kept` and `graceful_stop` are what follows for the cap
and for a daemon that stops.
-/

namespace AssemblyLine

namespace Daemon

/-- The tasks that are spawned and hold a slot. -/
def liveRounds (d : Daemon) : Finset Token := holders d.tasks (fun t => t.phase.isLive) d.nextToken

/-- The tasks that hold a place among the launching rounds. -/
def launchingRounds (d : Daemon) : Finset Token := holders d.tasks RoundTask.launching d.nextToken

end Daemon

/-- Whether the dispatcher has found a slot free and has not given it away. -/
def Dispatcher.hasSlot : Dispatcher → Bool
  | .looking _ => true
  | .registered _ => true
  | .counted _ => true
  | .receiving => false
  | .waiting _ => false
  | .returned => false

/-- Where a task holds its place among the launching rounds. -/
structure RoundTask.LaunchingWhileDue (t : RoundTask) : Prop where
  /-- From before its round starts until it is launched. -/
  held : t.phase.isLive = true → t.phase.stage = .waiting ∨ t.phase.stage = .started →
    t.launching = true
  /-- Not when it has nothing left to drop but its slot. -/
  dropped : t.phase.isRegistered = false → t.launching = false

/-- What always holds of a daemon's tallies. -/
structure SlotsInv (cfg : Config) (d : Daemon) : Prop where
  running : d.queue.running = d.liveRounds.card
  launching : d.queue.launching = d.launchingRounds.card
  due : ∀ token t, d.tasks token = some t → t.LaunchingWhileDue
  uncounted : ∀ token t, d.dispatcher = .registered token → d.tasks token = some t →
    t.launching = false
  counted : ∀ token t, d.dispatcher = .counted token → d.tasks token = some t →
    t.launching = true
  /-- A dispatcher that has found a slot still has it. -/
  claimed : d.dispatcher.hasSlot = true → d.queue.running < cfg.maxJobs
  /-- The dispatcher has not begun before the startup is over. -/
  early : d.isServing = false → d.dispatcher = .receiving ∧ d.queue.running ≤ d.reattached
  cap : d.queue.running ≤ max cfg.maxJobs d.reattached

section Slots

variable {cfg : Config} {root root' : Root} {d d' : Daemon} {token : Token} {t : RoundTask}

/-- What a step of a task does to the tallies. -/
structure TaskTally (d : Daemon) (token : Token) (t : RoundTask) (d' : Daemon)
    (changed : Option RoundTask) : Prop where
  tasks : d'.tasks = Function.update d.tasks token changed
  running : d'.queue.running = d.queue.running - (if changed.isSome then 0 else 1)
  launching : d'.queue.launching =
    d.queue.launching + (if changed.any RoundTask.launching then 1 else 0) -
      (if t.launching then 1 else 0)
  due : ∀ t', changed = some t' → t'.LaunchingWhileDue
  /-- A task counted as launching was counted before it was spawned. -/
  counted : ∀ t', changed = some t' → t'.launching = true → t.launching = true

lemma RoundPhase.stage_of_due {phase : RoundPhase} {round : ℕ} {due : EventKind × RoundPhase}
    (h : phase.due round = some due) :
    due.2.isRegistered = true ∧ (due.2.stage = .waiting ∨ due.2.stage = .started →
      phase.stage = .waiting ∨ phase.stage = .started) := by
  unfold RoundPhase.due at h
  split at h
  · cases h
    exact ⟨rfl, fun _ => .inl rfl⟩
  · cases h
    exact ⟨rfl, fun _ => .inl rfl⟩
  · cases h
    exact ⟨rfl, fun _ => .inr rfl⟩
  · cases h
    refine ⟨rfl, ?_⟩
    rintro (hstage | hstage) <;> cases hstage
  · simp at h

/-- A task takes its place among the launching rounds back once, and its slot once. -/
lemma TaskEffect.tally (effect : TaskEffect root d token t root' d')
    (hdue : t.LaunchingWhileDue) : ∃ changed, TaskTally d token t d' changed := by
  have hkept : ∀ t' : RoundTask, t'.launching = t.launching → d.queue.launching =
      d.queue.launching + (if (some t').any RoundTask.launching then 1 else 0) -
        (if t.launching then 1 else 0) := by
    intro t' hsame
    simp [hsame]
  cases effect with
  | proceeds phase same held holds lived lives fails cancels =>
      refine ⟨_, rfl, by simp, hkept _ rfl, ?_, ?_⟩
      all_goals rintro t' ⟨rfl⟩
      case refine_2 => exact fun h => h
      refine ⟨fun _ hstage => hdue.held lived ?_, fun hdropped => ?_⟩
      · rwa [same] at hstage
      · rw [holds] at hdropped
        cases hdropped
  | opens stream phase opening opened counted =>
      refine ⟨_, rfl, by simp, ?_, ?_, ?_⟩
      · simp [counted]
      · rintro t' ⟨rfl⟩
        refine ⟨fun _ hstage => ?_, fun _ => rfl⟩
        rw [opened] at hstage
        rcases hstage with hstage | hstage <;> cases hstage
      · rintro t' ⟨rfl⟩ h
        cases h
  | appends now due isDue =>
      obtain ⟨lived, -, -⟩ := RoundPhase.live_of_due isDue
      obtain ⟨hregistered, hstages⟩ := RoundPhase.stage_of_due isDue
      refine ⟨_, rfl, by simp, hkept _ rfl, ?_, ?_⟩
      all_goals rintro t' ⟨rfl⟩
      case refine_2 => exact fun h => h
      refine ⟨fun _ hstage => hdue.held lived (hstages hstage), fun hdropped => ?_⟩
      rw [hregistered] at hdropped
      cases hdropped
  | collects c c' disk collecting next =>
      refine ⟨_, rfl, by simp, hkept _ rfl, ?_, ?_⟩
      all_goals rintro t' ⟨rfl⟩
      case refine_2 => exact fun h => h
      refine ⟨fun _ hstage => ?_, fun hdropped => ?_⟩
      · simp only [RoundPhase.stage] at hstage
        split at hstage <;> simp at hstage
      · cases hdropped
  | abandons waits held lived why =>
      refine ⟨_, rfl, by simp, hkept _ rfl, ?_, ?_⟩
      all_goals rintro t' ⟨rfl⟩
      case refine_2 => exact fun h => h
      refine ⟨fun _ hstage => ?_, fun hdropped => ?_⟩
      · rcases hstage with hstage | hstage <;> cases hstage
      · cases hdropped
  | dropsLaunching returned counted =>
      refine ⟨_, rfl, by simp, ?_, ?_, ?_⟩
      · simp [counted]
      · rintro t' ⟨rfl⟩
        refine ⟨fun _ hstage => ?_, fun _ => rfl⟩
        rw [returned] at hstage
        rcases hstage with hstage | hstage <;> cases hstage
      · rintro t' ⟨rfl⟩ h
        cases h
  | dropsRegistration returned uncounted =>
      obtain ⟨-, hrunning, hlaunching, -⟩ := d.queue.deregister_frame t.address t.round
      refine ⟨_, rfl, ?_, ?_, ?_, ?_⟩
      · simp [hrunning]
      · simp [hlaunching]
      · rintro t' ⟨rfl⟩
        refine ⟨fun _ hstage => ?_, fun _ => uncounted⟩
        rcases hstage with hstage | hstage <;> cases hstage
      · rintro t' ⟨rfl⟩ h
        exact h
  | dropsSlot deregistered =>
      refine ⟨none, rfl, ?_, ?_, by simp, by simp⟩
      · simp
      · simp [hdue.dropped (by rw [deregistered]; rfl)]

/-- What changing or entering one task does to a tally. -/
lemma TasksInv.card_holders (inv : TasksInv d) (p : RoundTask → Bool) {changed : Option RoundTask}
    (htasks : d'.tasks = Function.update d.tasks token changed) (hlt : token < d'.nextToken)
    (hnext : d'.nextToken = d.nextToken ∨ d'.nextToken = d.nextToken + 1) :
    ((holders d'.tasks p d'.nextToken).card : ℤ) =
      (holders d.tasks p d.nextToken).card + (if changed.any p then 1 else 0) -
        (if (d.tasks token).any p then 1 else 0) := by
  rw [htasks, card_holders_update hlt]
  rcases hnext with hnext | hnext
  · rw [hnext]
  · rw [hnext, holders_succ (inv.fresh _ (Nat.le_refl _))]

/-- A step that leaves the tasks and the tallies. -/
lemma SlotsInv.of_same (inv : SlotsInv cfg d) (htasks : d'.tasks = d.tasks)
    (hnext : d'.nextToken = d.nextToken) (hrunning : d'.queue.running = d.queue.running)
    (hlaunching : d'.queue.launching = d.queue.launching)
    (hreattached : d'.reattached = d.reattached)
    (huncounted : ∀ token, d'.dispatcher = .registered token → d.dispatcher = .registered token)
    (hcounted : ∀ token, d'.dispatcher = .counted token → d.dispatcher = .counted token)
    (hclaimed : d'.dispatcher.hasSlot = true → d.queue.running < cfg.maxJobs)
    (hserves : d.isServing = true → d'.isServing = true)
    (hearly : d'.isServing = false → d'.dispatcher = d.dispatcher) : SlotsInv cfg d' := by
  refine ⟨?_, ?_, ?_, ?_, ?_, ?_, ?_, ?_⟩
  · rw [hrunning, inv.running, Daemon.liveRounds, Daemon.liveRounds, htasks, hnext]
  · rw [hlaunching, inv.launching, Daemon.launchingRounds, Daemon.launchingRounds, htasks, hnext]
  · rw [htasks]
    exact inv.due
  · intro token t hregistered
    rw [htasks]
    exact inv.uncounted token t (huncounted token hregistered)
  · intro token t hcount
    rw [htasks]
    exact inv.counted token t (hcounted token hcount)
  · rw [hrunning]
    exact hclaimed
  · intro hstarting
    have hbefore : d.isServing = false := by
      by_contra hserving
      rw [hserves (by simpa using hserving)] at hstarting
      cases hstarting
    rw [hrunning, hreattached, hearly hstarting]
    exact inv.early hbefore
  · rw [hrunning, hreattached]
    exact inv.cap

/-- A step of a spawned round's task. -/
lemma SlotsInv.of_tally (inv : SlotsInv cfg d) (htasks : TasksInv d) (ht : d.tasks token = some t)
    {changed : Option RoundTask} (tally : TaskTally d token t d' changed)
    (frame : TaskFrame root d token t root' d') : SlotsInv cfg d' := by
  have hlt : token < d'.nextToken := by
    rw [frame.nextToken]
    exact htasks.lt_next ht
  have hlives : ∀ t', changed = some t' → t'.phase.isLive = true := by
    intro t' hnew
    obtain ⟨changed', hupdate, hlives⟩ := frame.task
    have hsame : changed = changed' := by
      have hat := congrFun (tally.tasks.symm.trans hupdate) token
      simpa using hat
    exact (hlives t' (hsame ▸ hnew)).2.1
  have hholds : ∀ token' t', d'.tasks token' = some t' →
      (token' = token ∧ changed = some t') ∨ (token' ≠ token ∧ d.tasks token' = some t') := by
    intro token' t' h
    rw [tally.tasks] at h
    exact entry_of_update h
  have hless : d'.queue.running ≤ d.queue.running := by
    rw [tally.running]
    split <;> omega
  -- The task whose round is in the dispatcher's hands is not spawned, so it is another one.
  have hhand : ∀ token' t', d.dispatcher.hand = some token' → d'.tasks token' = some t' →
      d.tasks token' = some t' := by
    intro token' t' hheld h
    rcases hholds token' t' h with ⟨rfl, -⟩ | ⟨-, hold⟩
    · obtain ⟨t'', ht'', hphase⟩ := htasks.hand token' hheld
      have hlived := frame.lived
      rw [ht, Option.some.injEq] at ht''
      rw [ht'', hphase] at hlived
      cases hlived
    · exact hold
  refine ⟨?_, ?_, ?_, ?_, ?_, ?_, ?_, ?_⟩
  · rw [Daemon.liveRounds, htasks.card_holders _ tally.tasks hlt (.inl frame.nextToken),
      tally.running, inv.running, Daemon.liveRounds, ht]
    cases hchanged : changed with
    | none => simp [frame.lived]
    | some t' => simp [frame.lived, hlives t' hchanged]
  · rw [Daemon.launchingRounds, htasks.card_holders _ tally.tasks hlt (.inl frame.nextToken),
      tally.launching, inv.launching, Daemon.launchingRounds, ht]
    rfl
  · intro token' t' h
    rcases hholds token' t' h with ⟨-, hnew⟩ | ⟨-, hold⟩
    · exact tally.due t' hnew
    · exact inv.due token' t' hold
  · intro token' t' hregistered h
    rw [frame.dispatcher] at hregistered
    exact inv.uncounted token' t' hregistered (hhand token' t' (by rw [hregistered]; rfl) h)
  · intro token' t' hcounted h
    rw [frame.dispatcher] at hcounted
    exact inv.counted token' t' hcounted (hhand token' t' (by rw [hcounted]; rfl) h)
  · rw [frame.dispatcher]
    exact fun hslot => Int.lt_of_le_of_lt hless (inv.claimed hslot)
  · intro hstarting
    have hbefore : d.isServing = false := by
      rw [← hstarting, Daemon.isServing, Daemon.isServing, frame.startup]
    obtain ⟨hreceiving, hrunning⟩ := inv.early hbefore
    rw [frame.dispatcher, frame.reattached]
    exact ⟨hreceiving, Int.le_trans hless hrunning⟩
  · rw [frame.reattached]
    exact Int.le_trans hless inv.cap

/-- A step in the startup, after which the daemon may be serving. -/
lemma SlotsInv.of_startup (inv : SlotsInv cfg d) {others : List (JobAddress × Resumption)}
    {requeued : List JobAddress} (hstartup : d.startup = .resuming others requeued)
    (htasks : d'.tasks = d.tasks) (hnext : d'.nextToken = d.nextToken)
    (hrunning : d'.queue.running = d.queue.running)
    (hlaunching : d'.queue.launching = d.queue.launching)
    (hreattached : d'.reattached = d.reattached) (hdispatcher : d'.dispatcher = d.dispatcher) :
    SlotsInv cfg d' := by
  refine inv.of_same htasks hnext hrunning hlaunching hreattached ?_ ?_ ?_ ?_ (fun _ => hdispatcher)
  · intro token h
    rwa [hdispatcher] at h
  · intro token h
    rwa [hdispatcher] at h
  · rw [hdispatcher]
    exact inv.claimed
  · intro hserving
    simp [Daemon.isServing, hstartup] at hserving

/-- A step of the dispatcher with no round in its hands afterwards. -/
lemma SlotsInv.of_moved (inv : SlotsInv cfg d) (hserving : d.isServing = true)
    (htasks : d'.tasks = d.tasks) (hnext : d'.nextToken = d.nextToken)
    (hrunning : d'.queue.running = d.queue.running)
    (hlaunching : d'.queue.launching = d.queue.launching)
    (hreattached : d'.reattached = d.reattached) (hstartup : d'.startup = d.startup)
    (hhand : d'.dispatcher.hand = none)
    (hclaimed : d'.dispatcher.hasSlot = true → d.queue.running < cfg.maxJobs) :
    SlotsInv cfg d' := by
  have hsame : d'.isServing = d.isServing := by
    rw [Daemon.isServing, Daemon.isServing, hstartup]
  refine inv.of_same htasks hnext hrunning hlaunching hreattached ?_ ?_ hclaimed ?_ ?_
  · intro token h
    rw [h] at hhand
    cases hhand
  · intro token h
    rw [h] at hhand
    cases hhand
  · rw [hsame]
    exact fun h => h
  · intro hstarting
    rw [hsame, hserving] at hstarting
    cases hstarting

/-- A starting daemon takes up a round, and its slot. -/
lemma SlotsInv.of_reattached (inv : SlotsInv cfg d) (htasks : TasksInv d)
    (hstarting : d.isServing = false) (ht : t.phase.isLive = true) (hdue : t.LaunchingWhileDue)
    (hcounted : t.launching = false)
    (htasks' : d'.tasks = Function.update d.tasks d.nextToken (some t))
    (hnext : d'.nextToken = d.nextToken + 1) (hrunning : d'.queue.running = d.queue.running + 1)
    (hlaunching : d'.queue.launching = d.queue.launching)
    (hreattached : d'.reattached = d.reattached + 1) (hdispatcher : d'.dispatcher = d.dispatcher) :
    SlotsInv cfg d' := by
  obtain ⟨hreceiving, hbound⟩ := inv.early hstarting
  have hlt : d.nextToken < d'.nextToken := by
    rw [hnext]
    exact Nat.lt_succ_self _
  have hnone := htasks.fresh d.nextToken (Nat.le_refl _)
  refine ⟨?_, ?_, ?_, ?_, ?_, ?_, ?_, ?_⟩
  · rw [Daemon.liveRounds, htasks.card_holders _ htasks' hlt (.inr hnext), hrunning, inv.running,
      Daemon.liveRounds, hnone]
    simp [ht]
  · rw [Daemon.launchingRounds, htasks.card_holders _ htasks' hlt (.inr hnext), hlaunching,
      inv.launching, Daemon.launchingRounds, hnone]
    simp [hcounted]
  · intro token t' h
    rw [htasks'] at h
    rcases entry_of_update h with ⟨-, ⟨rfl⟩⟩ | ⟨-, hold⟩
    · exact hdue
    · exact inv.due token t' hold
  · intro token t' h
    rw [hdispatcher, hreceiving] at h
    cases h
  · intro token t' h
    rw [hdispatcher, hreceiving] at h
    cases h
  · intro h
    rw [hdispatcher, hreceiving] at h
    cases h
  · intro _
    rw [hdispatcher, hreceiving, hrunning, hreattached]
    refine ⟨rfl, ?_⟩
    push_cast
    omega
  · rw [hrunning, hreattached]
    omega

/-- A step of the dispatcher with a round in its hands: registering it, counting it as launching,
and spawning it. -/
lemma SlotsInv.of_dispatched (inv : SlotsInv cfg d) (htasks : TasksInv d)
    (hserving : d.isServing = true) (hdue : t.LaunchingWhileDue)
    (htasks' : d'.tasks = Function.update d.tasks token (some t)) (hlt : token < d'.nextToken)
    (hnext : d'.nextToken = d.nextToken ∨ d'.nextToken = d.nextToken + 1)
    (hrunning : d'.queue.running = d.queue.running + (if t.phase.isLive then 1 else 0) -
      (if (d.tasks token).any (fun t => t.phase.isLive) then 1 else 0))
    (hlaunching : d'.queue.launching = d.queue.launching + (if t.launching then 1 else 0) -
      (if (d.tasks token).any RoundTask.launching then 1 else 0))
    (hreattached : d'.reattached = d.reattached) (hstartup : d'.startup = d.startup)
    (huncounted : ∀ token', d'.dispatcher = .registered token' →
      token' = token ∧ t.launching = false)
    (hcounted : ∀ token', d'.dispatcher = .counted token' → token' = token ∧ t.launching = true)
    (hclaimed : d'.dispatcher.hasSlot = true → d'.queue.running < cfg.maxJobs)
    (hcap : d'.queue.running ≤ max cfg.maxJobs d.reattached) : SlotsInv cfg d' := by
  refine ⟨?_, ?_, ?_, ?_, ?_, hclaimed, ?_, ?_⟩
  · rw [Daemon.liveRounds, htasks.card_holders _ htasks' hlt hnext, hrunning, inv.running,
      Daemon.liveRounds]
    rfl
  · rw [Daemon.launchingRounds, htasks.card_holders _ htasks' hlt hnext, hlaunching, inv.launching,
      Daemon.launchingRounds]
    rfl
  · intro token' t' h
    rw [htasks'] at h
    rcases entry_of_update h with ⟨-, ⟨rfl⟩⟩ | ⟨-, hold⟩
    · exact hdue
    · exact inv.due token' t' hold
  · intro token' t' hheld h
    obtain ⟨rfl, hflag⟩ := huncounted token' hheld
    rw [htasks', Function.update_self, Option.some.injEq] at h
    rw [← h, hflag]
  · intro token' t' hheld h
    obtain ⟨rfl, hflag⟩ := hcounted token' hheld
    rw [htasks', Function.update_self, Option.some.injEq] at h
    rw [← h, hflag]
  · intro hstarting
    rw [Daemon.isServing, hstartup, ← Daemon.isServing, hserving] at hstarting
    cases hstarting
  · rw [hreattached]
    exact hcap

/-- Every step of a daemon keeps its tallies right. -/
theorem SlotsInv.step {act : DaemonAction} (inv : SlotsInv cfg d) (htasks : TasksInv d)
    (effect : DaemonEffect cfg root d act root' d') : SlotsInv cfg d' := by
  cases effect with
  | task token t act root' d' mine effect =>
      obtain ⟨changed, tally⟩ := effect.tally (inv.due token t mine)
      exact inv.of_tally htasks mine tally effect.frame
  | reattaches now b round handle others requeued startup =>
      refine inv.of_reattached (t := ⟨b, round, requestsIn (root.events b), false,
        .reattaching handle⟩) htasks ?_ rfl ?_ rfl rfl rfl rfl rfl rfl rfl
      · rw [Daemon.isServing, startup]
      · refine ⟨fun _ hstage => ?_, fun hdropped => nomatch hdropped⟩
        rcases hstage with hstage | hstage <;> cases hstage
  | closesLost now b round others requeued startup =>
      exact inv.of_startup startup rfl rfl rfl rfl rfl rfl
  | passesOver now b others requeued startup =>
      exact inv.of_startup startup rfl rfl rfl rfl rfl rfl
  | requeues b requeued startup => exact inv.of_startup startup rfl rfl rfl rfl rfl rfl
  | serves startup => exact inv.of_startup startup rfl rfl rfl rfl rfl rfl
  | registers b serving looking queued free =>
      have hfree := inv.claimed (by rw [looking]; rfl)
      have hnone := htasks.fresh d.nextToken (Nat.le_refl _)
      refine inv.of_dispatched htasks serving (t := ⟨b, (root.report b).rounds + 1,
        requestsIn (root.events b), false, .registered⟩) ⟨fun h => (nomatch h), fun _ => rfl⟩ rfl
        (Nat.lt_succ_self _) (.inr rfl) ?_ ?_ rfl rfl ?_ ?_ (fun _ => hfree) inv.cap
      · simp [hnone, RoundPhase.isLive, Daemon.addTask, JobQueue.register]
      · simp [hnone, Daemon.addTask, JobQueue.register]
      · rintro token' ⟨rfl⟩
        exact ⟨rfl, rfl⟩
      · rintro token' h
        cases h
  | counts token t serving registered mine =>
      have hfree := inv.claimed (by rw [registered]; rfl)
      have hflag := inv.uncounted token t registered mine
      obtain ⟨t', ht', hphase⟩ := htasks.hand token (by rw [registered]; rfl)
      obtain rfl : t' = t := Option.some.inj (ht'.symm.trans mine)
      refine inv.of_dispatched htasks serving (t := { t' with launching := true })
        ⟨fun _ _ => rfl, ?_⟩
        rfl (htasks.lt_next mine) (.inl rfl) ?_ ?_ rfl rfl ?_ ?_ (fun _ => hfree) inv.cap
      · intro hdropped
        rw [hphase] at hdropped
        cases hdropped
      · simp [mine, hphase, RoundPhase.isLive, JobQueue.countLaunching]
      · simp [mine, hflag, JobQueue.countLaunching]
      · rintro token' h
        cases h
      · rintro token' ⟨rfl⟩
        exact ⟨rfl, rfl⟩
  | spawns token t serving counted mine =>
      have hfree := inv.claimed (by rw [counted]; rfl)
      have hflag := inv.counted token t counted mine
      obtain ⟨t', ht', hphase⟩ := htasks.hand token (by rw [counted]; rfl)
      obtain rfl : t' = t := Option.some.inj (ht'.symm.trans mine)
      refine inv.of_dispatched htasks serving (t := { t' with phase := .reading })
        ⟨fun _ _ => hflag, fun h => nomatch h⟩ rfl (htasks.lt_next mine)
          (.inl rfl) ?_ ?_ rfl rfl ?_ ?_
        ?_ ?_
      · simp [mine, hphase, RoundPhase.isLive, JobQueue.takeSlot]
      · simp [mine, hflag, JobQueue.takeSlot]
      · rintro token' h
        cases h
      · rintro token' h
        cases h
      · intro h
        cases h
      · simp only [JobQueue.takeSlot]
        omega
  | receives b pending serving receiving first =>
      exact inv.of_moved serving rfl rfl rfl rfl rfl rfl rfl fun h => nomatch h
  | findsSlot b serving waiting free =>
      exact inv.of_moved serving rfl rfl rfl rfl rfl rfl rfl fun _ => free
  | skips b serving looking why =>
      exact inv.of_moved serving rfl rfl rfl rfl rfl rfl rfl fun h => nomatch h
  | returns serving idle stopping =>
      exact inv.of_moved serving rfl rfl rfl rfl rfl rfl rfl fun h => nomatch h
  | _ =>
      exact inv.of_same rfl rfl rfl rfl rfl (fun _ h => h) (fun _ h => h) inv.claimed (fun h => h)
        fun _ => rfl

/-- A daemon starts with nothing counted. -/
lemma SlotsInv.started (cfg : Config) (root : Root) (walk : List JobAddress) :
    SlotsInv cfg (Daemon.started root walk) where
  running := rfl
  launching := rfl
  due _ _ h := nomatch h
  uncounted _ _ h := nomatch h
  counted _ _ h := nomatch h
  claimed h := nomatch h
  early _ := ⟨rfl, Int.le_refl 0⟩
  cap := Int.natCast_nonneg _

end Slots

/-! ## In every state a daemon reaches -/

section Reached

variable {cfg : Config} {w w' : World} {d : Daemon}

/-- A daemon at work on its root: what holds of it in every state it reaches. -/
structure AtWork (cfg : Config) (s : Root × Daemon) : Prop where
  daemon : DaemonInv cfg s.1 s.2
  slots : SlotsInv cfg s.2

lemma AtWork.step {s s' : Root × Daemon} {act : DaemonAction} (inv : AtWork cfg s)
    (h : Daemon.step cfg s act = some s') : AtWork cfg s' :=
  ⟨inv.daemon.step h, inv.slots.step inv.daemon.toTasksInv (DaemonEffect.of_step h)⟩

theorem atWork_of_reachable
    (reached : Reachable (World.step cfg) anyAction (fun w => w = .fresh) w)
    (hd : w.daemon = some d) : AtWork cfg (w.root, d) := by
  refine ⟨(WorldInv.of_reachable reached).daemon d hd, ?_⟩
  refine World.daemon_invariant (I := fun _ d => SlotsInv cfg d) reached ?_ ?_ d hd
  · intro root walk _ _ _
    exact .started cfg root walk
  · intro root d act root' d' inv hslots _ effect
    exact hslots.step inv.toTasksInv effect

/-! ## The cap -/

/-- **The cap is never exceeded by a dispatch.**  The count of running rounds is the number of
live round tasks, a queued round is registered and spawned only while that number is under the
cap, so at most the cap or the rounds reattached to are live, and a job that is skipped takes
nothing. -/
theorem cap_kept (reached : Reachable (World.step cfg) anyAction (fun w => w = .fresh) w)
    (hd : w.daemon = some d) :
    d.queue.running = d.liveRounds.card ∧
      d.liveRounds.card ≤ max cfg.maxJobs d.reattached ∧
      (∀ s, Daemon.step cfg (w.root, d) .spawn = some s →
        d.liveRounds.card < cfg.maxJobs ∧ s.2.liveRounds.card = d.liveRounds.card + 1) ∧
      ∀ s, Daemon.step cfg (w.root, d) .look = some s →
        d.liveRounds.card < cfg.maxJobs ∧ s.2.queue.running = d.queue.running ∧
          (s.2.dispatcher = .receiving → s.2.queue = d.queue ∧ s.2.tasks = d.tasks) := by
  have inv := atWork_of_reachable reached hd
  have hcount := inv.slots.running
  have hcap := inv.slots.cap
  refine ⟨hcount, ?_, ?_, ?_⟩
  · dsimp only at hcount hcap
    omega
  · rintro ⟨root', d'⟩ hstep
    have hcount' := (inv.step hstep).slots.running
    cases DaemonEffect.of_step hstep with
    | spawns token t serving counted mine =>
        have hfree := inv.slots.claimed (by dsimp only; rw [counted]; rfl)
        simp only [JobQueue.takeSlot] at hcount' hcount hfree ⊢
        omega
  · rintro ⟨root', d'⟩ hstep
    cases DaemonEffect.of_step hstep with
    | registers b serving looking queued free =>
        have hfree := inv.slots.claimed (by dsimp only; rw [looking]; rfl)
        refine ⟨?_, rfl, fun h => nomatch h⟩
        dsimp only at hcount hfree
        omega
    | skips b serving looking why =>
        have hfree := inv.slots.claimed (by dsimp only; rw [looking]; rfl)
        refine ⟨?_, rfl, fun _ => ⟨rfl, rfl⟩⟩
        dsimp only at hcount hfree
        omega

theorem cap_kept_at_cap : ∃ w d,
    exec (World.step rootConfig) .fresh
      (daemonRunning (.serve :: (submitting 1 0 ++ dispatching 0))) = some w ∧
        w.daemon = some d ∧ d.queue.running = 1 ∧ d.queue.running = d.liveRounds.card ∧
          d.liveRounds.card ≤ max 1 d.reattached := by
  have hdone : ((exec (World.step rootConfig) .fresh
      (daemonRunning (.serve :: (submitting 1 0 ++ dispatching 0)))).bind fun w =>
        w.daemon.map fun d => d.queue.running) = some 1 := by decide +kernel
  obtain ⟨w, hw, hd⟩ := Option.bind_eq_some_iff.mp hdone
  obtain ⟨d, hd, hrunning⟩ := Option.map_eq_some_iff.mp hd
  obtain ⟨hcount, hcap, -⟩ := cap_kept (.of_exec rfl hw) hd
  exact ⟨w, d, hw, hd, hrunning, hcount, hcap⟩

/-! ## A stop -/

/-- Whether a job is recorded as running, and its round not as launched. -/
def JobReport.Unlaunched (report : JobReport) : Prop :=
  report.state = .running ∧ report.launched = none

instance : DecidablePred JobReport.Unlaunched := fun _ => inferInstanceAs (Decidable (_ ∧ _))

/-- While a round is started and not launched, a launch is counted. -/
lemma AtWork.launching_pos {s : Root × Daemon} (inv : AtWork cfg s)
    (attends : s.2.Attends cfg s.1 .started) (hserving : s.2.isServing = true)
    {a : JobAddress} (hstarted : standing (s.1.events a) = some .started) :
    0 < s.2.queue.launching := by
  rcases attends a hstarted with howed | ⟨token, m, hm, hwork⟩
  · exact absurd (Daemon.owes_of_serving hserving) howed
  · obtain ⟨hstands, -⟩ := (inv.daemon.job a).atWork token m hm hwork
    obtain ⟨t, ht, -, rfl⟩ := Daemon.task_of_crew hm
    have hstage : t.phase.stage = .started := by
      have hsame : standing (s.1.events a) = some t.phase.stage.standing := hstands
      rw [hstarted, Option.some.injEq] at hsame
      have hstages : Stage.started.standing = t.phase.stage.standing := hsame
      exact (Stage.standing_injective hstages).symm
    have hlive : t.phase.isLive = true := by
      cases hphase : t.phase <;> first | rfl | (rw [hphase] at hstage; cases hstage)
    have hcounted := (inv.slots.due token t ht).held hlive (.inr hstage)
    have hmem : token ∈ s.2.launchingRounds :=
      mem_holders.mpr ⟨inv.daemon.lt_next ht, t, ht, hcounted⟩
    have hpos := Finset.card_pos.mpr ⟨token, hmem⟩
    rw [inv.slots.launching]
    omega

/-- What has stopped: the dispatcher, and with it every launch. -/
structure Stopped (cfg : Config) (s : Root × Daemon) : Prop extends AtWork cfg s where
  attends : s.2.Attends cfg s.1 .started
  serving : s.2.isServing = true
  returned : s.2.dispatcher = .returned
  settled : s.2.queue.LaunchesSettled

/-- A running job's round is recorded as launched. -/
lemma Stopped.launched {s : Root × Daemon} (inv : Stopped cfg s) {a : JobAddress}
    (hrunning : (s.1.report a).state = .running) : standing (s.1.events a) = some .launched := by
  obtain ⟨stands, hs⟩ := (inv.daemon.job a).stands
  rcases (running_iff_of_standing hs).mp hrunning with rfl | rfl
  · have hpos := inv.launching_pos inv.attends inv.serving hs
    rw [inv.settled] at hpos
    exact absurd hpos (Int.lt_irrefl 0)
  · exact hs

/-- The next daemon reattaches to every running job exactly when it finds every one of them. -/
lemma Stopped.reattached_iff {s : Root × Daemon} (inv : Stopped cfg s) (hroot : RootInv s.1)
    {walk : List JobAddress} (hwalk : walk.Perm s.1.jobDirsBelow) :
    (∀ a, (s.1.report a).state = .running →
      ∃ round handle, (Daemon.started s.1 walk).owes a = some (.reattach round handle)) ↔
        s.1.FindsEvery fun report => report.state = .running := by
  constructor
  · intro hreattached a _ hrunning
    obtain ⟨round, handle, howes⟩ := hreattached a hrunning
    by_contra hbelow
    rw [started_owes_of_not_outermost hwalk hbelow] at howes
    cases howes
  · intro hfinds a hrunning
    have hlaunched := inv.launched hrunning
    obtain ⟨handle, -, howed⟩ := @owed_of_standing_launched a.id _ hlaunched
    have hdir := (hroot.mem_of_standing hlaunched (by simp)).1
    exact ⟨_, handle, started_owes_of_standing hroot hwalk (hfinds a hdir hrunning) hlaunched
      (by simp) howed⟩

/-- A dispatcher that has returned takes no step more, and nobody else begins a launch. -/
lemma Stopped.step {s s' : Root × Daemon} {act : DaemonAction} (inv : Stopped cfg s)
    (h : Daemon.step cfg s act = some s') :
    Stopped cfg s' ∧ act ≠ .look ∧ act ≠ .spawn := by
  obtain ⟨root, d⟩ := s
  obtain ⟨root', d'⟩ := s'
  have hatWork := inv.toAtWork.step h
  have hattends := inv.attends.of_effect inv.daemon (.inl rfl) (DaemonEffect.of_step h)
  have hreturned := inv.returned
  have hserving := inv.serving
  dsimp only at hreturned hserving
  cases DaemonEffect.of_step h with
  | reattaches now b round handle others requeued startup =>
      simp [Daemon.isServing, startup] at hserving
  | closesLost now b round others requeued startup =>
      simp [Daemon.isServing, startup] at hserving
  | passesOver now b others requeued startup => simp [Daemon.isServing, startup] at hserving
  | requeues b requeued startup => simp [Daemon.isServing, startup] at hserving
  | serves startup => simp [Daemon.isServing, startup] at hserving
  | receives b pending serving receiving first => simp [receiving] at hreturned
  | findsSlot b serving waiting free => simp [waiting] at hreturned
  | registers b serving looking queued free => simp [looking] at hreturned
  | skips b serving looking why => simp [looking] at hreturned
  | counts token t serving registered mine => simp [registered] at hreturned
  | spawns token t serving counted mine => simp [counted] at hreturned
  | returns serving idle stopping => rcases idle with idle | ⟨b, idle⟩ <;> simp [idle] at hreturned
  | task token t act root' d' mine effect =>
      have hframe := effect.frame
      obtain ⟨changed, tally⟩ := effect.tally (inv.slots.due token t mine)
      have hless : d'.queue.launching ≤ d.queue.launching := by
        rw [tally.launching]
        cases hflag : t.launching with
        | true =>
            rw [if_pos rfl]
            split <;> omega
        | false =>
            have hnone : ¬(changed.any RoundTask.launching = true) := by
              rw [Option.any_eq_true]
              rintro ⟨t', hnew, hcounted⟩
              rw [tally.counted t' hnew hcounted] at hflag
              cases hflag
            rw [if_neg hnone]
            simp
      have hzero : d.queue.launching = 0 := inv.settled
      have hnonneg := hatWork.slots.launching
      dsimp only at hnonneg
      refine ⟨⟨hatWork, hattends, ?_, ?_, ?_⟩, by simp, by simp⟩
      · dsimp only
        rw [Daemon.isServing, hframe.startup]
        exact hserving
      · exact hframe.dispatcher.trans hreturned
      · show d'.queue.launching = 0
        omega
  | _ => exact ⟨⟨hatWork, hattends, hserving, hreturned, inv.settled⟩, by simp, by simp⟩

/-- **A graceful stop loses no launched round of a job that is found.**  The tallies never go below
zero.  In every run whose daemons find at their start each job whose round was lost while
launching: once the dispatcher has returned and no launch is counted, no round is ever dispatched
again, no launch is counted again, and every running job has a recorded handle; and the next daemon
reattaches to all of them exactly when it finds every one. -/
theorem graceful_stop
    (reached : Reachable (World.step cfg) (FindsAtStart JobReport.Unlaunched)
    (fun w => w = .fresh) w)
    (hd : w.daemon = some d) :
    0 ≤ d.queue.launching ∧ 0 ≤ d.queue.running ∧
      (d.dispatcher = .returned → d.queue.LaunchesSettled →
        ∀ h s, Run (Daemon.step cfg) anyAction actionsShown (w.root, d) h s →
          .look ∉ h ∧ .spawn ∉ h ∧ s.2.dispatcher = .returned ∧ s.2.queue.launching = 0 ∧
            (∀ a, (s.1.report a).state = .running → (s.1.report a).launched.isSome) ∧
              ∀ walk, walk.Perm s.1.jobDirsBelow →
                ((∀ a, (s.1.report a).state = .running → ∃ round handle,
                  (Daemon.started s.1 walk).owes a = some (.reattach round handle)) ↔
                    s.1.FindsEvery fun report => report.state = .running)) := by
  have inv := atWork_of_reachable (Reachable.mono reached fun _ _ _ => trivial) hd
  have attends : d.Attends cfg w.root .started := by
    refine World.attends reached (.inl rfl) ?_ hd
    intro root walk hfinds a ha hs
    refine hfinds a ha ⟨(running_iff_of_standing hs).mpr (.inl rfl), ?_⟩
    exact (reads_of_standing hs).2
  have hlaunching := inv.slots.launching
  have hrunning := inv.slots.running
  dsimp only at hlaunching hrunning
  refine ⟨by omega, by omega, ?_⟩
  intro hreturned hsettled h s run
  have hserving : d.isServing = true := by
    by_contra hstarting
    have hearly := (inv.slots.early (by simpa using hstarting)).1
    dsimp only at hearly
    rw [hreturned] at hearly
    cases hearly
  have hroot := (WorldInv.of_reachable reached).root
  have hstopped : Stopped cfg s ∧ s.1.jobDirs.Nodup ∧ .look ∉ h ∧ .spawn ∉ h := by
    refine run.history_invariant
      (I := fun h s => Stopped cfg s ∧ s.1.jobDirs.Nodup ∧ .look ∉ h ∧ .spawn ∉ h) ?_
      ⟨⟨inv, attends, hserving, hreturned, hsettled⟩, hroot.dirs, by simp, by simp⟩
    rintro h s act s' ⟨hs, hdirs, hlook, hspawn⟩ _ hstep
    obtain ⟨hs', hneither⟩ := hs.step hstep
    refine ⟨hs', (DaemonEffect.of_step hstep).keepsDirs hdirs, ?_, ?_⟩
    · simpa [actionsShown, hlook] using Ne.symm hneither.1
    · simpa [actionsShown, hspawn] using Ne.symm hneither.2
  obtain ⟨hs, hdirs, hlook, hspawn⟩ := hstopped
  refine ⟨hlook, hspawn, hs.returned, hs.settled, ?_, ?_⟩
  · intro a hrunning
    exact (launched_isSome_iff_of_standing (hs.launched hrunning) hrunning).mpr rfl
  · intro walk hwalk
    exact hs.reattached_iff (hs.daemon.rootInv hdirs) hwalk

/-- A stream that reports nothing. -/
def silentStream : RoundStream := ⟨[], fun _ h => (nomatch h), Nat.zero_le _⟩

/-- A daemon told to stop while one round is launching, of a job an earlier daemon was killed with
in its queue. -/
def stoppedMidLaunch : List WorldAction :=
  daemonRunning (.serve :: submitting 1 0) ++ .kill :: .start [jobAddress] ::
    running (.requeue :: .serve :: (dispatching 0 ++
      [.task 0 (.readConfig (.ok ())), .task 0 (.append 1), .stopLaunching, .dispatcherStops,
        .task 0 (.launchReturns (.ok (.docker "round", silentStream))), .task 0 (.append 2),
        .task 0 .startCollecting]))

theorem graceful_stop_mid_launch : ∃ w d,
    exec (fun w act => if FindsAtStart JobReport.Unlaunched w act then World.step rootConfig w act
      else none) .fresh stoppedMidLaunch = some w ∧
    w.daemon = some d ∧ (w.root.report jobAddress).state = .running ∧
      (w.root.report jobAddress).launched.isSome ∧ ∃ round handle,
        (Daemon.started w.root [jobAddress]).owes jobAddress = some (.reattach round handle) := by
  have hdone : ((exec (fun w act => if FindsAtStart JobReport.Unlaunched w act then
      World.step rootConfig w act else none) .fresh stoppedMidLaunch).bind fun w =>
      w.daemon.map fun d =>
        ((d.dispatcher, d.queue.launching, (w.root.report jobAddress).state),
          (decide ([jobAddress].Perm w.root.jobDirsBelow),
            decide (w.root.FindsEvery fun report => report.state = .running)))) =
          some ((.returned, 0, .running), (true, true)) := by decide +kernel
  obtain ⟨w, hw, hd⟩ := Option.bind_eq_some_iff.mp hdone
  obtain ⟨d, hd, hstopped⟩ := Option.map_eq_some_iff.mp hd
  simp only [Prod.mk.injEq, decide_eq_true_eq] at hstopped
  obtain ⟨⟨hreturned, hsettled, hrunning⟩, hwalk, hfinds⟩ := hstopped
  obtain ⟨-, -, hlasting⟩ := graceful_stop (.of_guarded_exec rfl hw) hd
  obtain ⟨-, -, -, -, hlaunched, hreattached⟩ :=
    hlasting hreturned hsettled [] (w.root, d) (.nil _)
  exact ⟨w, d, hw, hd, hrunning, hlaunched jobAddress hrunning,
    (hreattached [jobAddress] hwalk).mpr hfinds jobAddress hrunning⟩

/-- The repository whose jobs live below the first job of another one. -/
def teamKey : RepoKey := ⟨["git.example.com", "team"]⟩

def keyBelow : RepoKey := ⟨["git.example.com", "team", "1"]⟩

/-- A daemon is killed while it launches a job below another one's directory, and the next one is
stopped. -/
def stoppedBelow : List WorldAction :=
  daemonRunning (.serve :: (submittingTo teamKey "https://git.example.com/team" 1 0 ++
    submittingTo keyBelow "https://git.example.com/team/1" 1 1 ++
    [.cancel (rootConfig.address teamKey 1) 2, .receive, .slotFree, .look] ++ dispatching 0 ++
    [.task 0 (.readConfig (.ok ())), .task 0 (.append 3)])) ++
  .kill :: .start [rootConfig.address teamKey 1] ::
    running [.serve, .stopLaunching, .dispatcherStops]

/-- **The job below stays as it was**: it is recorded as running, without a handle. -/
theorem stopped_below_unlaunched : ∃ w d,
    Reachable (World.step rootConfig) anyAction (fun w => w = .fresh) w ∧ w.daemon = some d ∧
      d.dispatcher = .returned ∧ d.queue.LaunchesSettled ∧
        (w.root.report (rootConfig.address keyBelow 1)).state = .running ∧
          (w.root.report (rootConfig.address keyBelow 1)).launched = none := by
  have hdone : ((exec (World.step rootConfig) .fresh stoppedBelow).bind fun w =>
      w.daemon.map fun d => (d.dispatcher, d.queue.launching,
        (w.root.report (rootConfig.address keyBelow 1)).state,
          (w.root.report (rootConfig.address keyBelow 1)).launched)) =
            some (.returned, 0, .running, none) := by decide +kernel
  obtain ⟨w, hw, hd⟩ := Option.bind_eq_some_iff.mp hdone
  obtain ⟨d, hd, hstopped⟩ := Option.map_eq_some_iff.mp hd
  simp only [Prod.mk.injEq] at hstopped
  obtain ⟨hreturned, hsettled, hrunning, hunlaunched⟩ := hstopped
  exact ⟨w, d, .of_exec rfl hw, hd, hreturned, hsettled, hrunning, hunlaunched⟩

end Reached

end AssemblyLine
