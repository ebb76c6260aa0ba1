import AssemblyLine.Daemon.Places

/-!
# Whose bookmark a collection starts from

A position file is named by its round's number alone, and numbers come from folding the job's log.
`LaunchNotes` notes beside a run of daemons which launch each task collects and which launch's
collection wrote each position file last; nothing in the code keeps it.  `Bookmarked` ties the
notes to the log, where no round is launched twice, and `collected_from_own_bookmark` is what
follows: a round just launched has no position file, and a round reattached to finds the one its
own launch left.
-/

namespace AssemblyLine

/-! ## Notes -/

/-- What is noted of launches beside a run.  A launch is the place of its `RoundLaunched` among
those in its job's log. -/
structure LaunchNotes where
  /-- The launch whose stream each task of the daemon collects. -/
  launch : Token → Option ℕ
  /-- The tasks of rounds an earlier daemon launched. -/
  reattached : Token → Bool
  /-- The launch whose collection last wrote each round's position file. -/
  writer : JobAddress → ℕ → Option ℕ

namespace LaunchNotes

def none : LaunchNotes := ⟨fun _ => .none, fun _ => false, fun _ _ => .none⟩

/-- What is noted of a step of a task. -/
def afterTask (n : LaunchNotes) (root : Root) (token : Token) (t : RoundTask) :
    TaskAction → LaunchNotes
  | .append _ =>
    match t.phase with
    | .recording _ _ =>
      { n with
        launch := Function.update n.launch token
          (some (launchedRounds (root.events t.address)).length) }
    | _ => n
  | .collect =>
    match t.phase with
    | .collecting c =>
      if c.unrecorded.isSome then
        { n with
          writer := Function.update n.writer t.address
            (Function.update (n.writer t.address) t.round (n.launch token)) }
      else n
    | _ => n
  | _ => n

/-- What is noted of a step of the daemon `d`: its next token is that of the round the dispatcher
registers, or of the one reattached to. -/
def afterDaemon (n : LaunchNotes) (root : Root) (d : Daemon) : DaemonAction → LaunchNotes
  | .look => { n with reattached := Function.update n.reattached d.nextToken false }
  | .resume _ =>
    match d.startup with
    | .resuming ((a, .reattach _ _) :: _) _ =>
      { n with
        launch := Function.update n.launch d.nextToken
          (some ((launchedRounds (root.events a)).length - 1))
        reattached := Function.update n.reattached d.nextToken true }
    | _ => n
  | .task token act =>
    match d.tasks token with
    | some t => n.afterTask root token t act
    | .none => n
  | _ => n

/-- What is noted of a step: a daemon that starts has no tasks yet. -/
def after (n : LaunchNotes) (w : World) : WorldAction → LaunchNotes
  | .start _ => { n with launch := fun _ => .none, reattached := fun _ => false }
  | .kill => n
  | .act act =>
    match w.daemon with
    | some d => n.afterDaemon w.root d act
    | .none => n

end LaunchNotes

/-- A world, and what is noted beside it. -/
structure Noted where
  world : World
  notes : LaunchNotes

namespace Noted

def fresh : Noted := ⟨.fresh, .none⟩

def step (cfg : Config) (s : Noted) (act : WorldAction) : Option Noted :=
  (World.step cfg s.world act).map fun w => ⟨w, s.notes.after s.world act⟩

end Noted

section Noting

variable {cfg : Config} {s s' : Noted} {w : World}

lemma Noted.of_step {act : WorldAction} (h : Noted.step cfg s act = some s') :
    World.step cfg s.world act = some s'.world ∧ s'.notes = s.notes.after s.world act := by
  obtain ⟨w, hw, rfl⟩ := Option.map_eq_some_iff.mp h
  exact ⟨hw, rfl⟩

/-- Notes are taken of a run, and change nothing in it. -/
theorem Noted.exists_of_reachable
    (reached : Reachable (World.step cfg) anyAction (fun w => w = .fresh) w) :
    ∃ notes, Reachable (Noted.step cfg) anyAction (fun s => s = .fresh) ⟨w, notes⟩ := by
  obtain ⟨w₀, rfl, h, run⟩ := reached
  induction run with
  | nil => exact ⟨.none, .of_init rfl⟩
  | snoc _ _ hstep ih =>
      obtain ⟨notes, hreached⟩ := ih
      exact ⟨_, hreached.next trivial (by rw [Noted.step, hstep]; rfl)⟩

/-- The worlds of noted runs are the worlds of runs. -/
theorem Noted.world_reachable
    (reached : Reachable (Noted.step cfg) anyAction (fun s => s = .fresh) s) :
    Reachable (World.step cfg) anyAction (fun w => w = .fresh) s.world := by
  refine reached.simulates (f := Noted.world) (I := fun _ => True) (fun _ _ => trivial)
    (fun _ _ _ _ _ _ => trivial) (fun s hs => by rw [hs]; rfl) ?_
  intro s act t _ _ hstep
  exact .inr ⟨act, (Noted.of_step hstep).1⟩

end Noting

/-! ## What a step does to streams and position files -/

/-- Whether a task has a stream to collect, or is about to be given the one it reattaches to. -/
def RoundPhase.isStreaming : RoundPhase → Bool
  | .reattaching _ => true
  | .opening _ => true
  | .collecting _ => true
  | _ => false

/-- The round's stream is about to be collected. -/
def RoundPhase.isOpening : RoundPhase → Bool
  | .opening _ => true
  | _ => false

/-- What a step of a task does to its stream and to the position files: `changed` is the task
after it. -/
inductive StreamStep (root : Root) (t : RoundTask) :
    TaskAction → Option RoundTask → Root → Prop
  /-- Its round is launched. -/
  | records (now : Instant) (handle : RoundHandle) (stream : RoundStream)
      (recording : t.phase = .recording handle stream) :
      StreamStep root t (.append now) (some { t with phase := .opening stream })
        (root.append t.address now (.roundLaunched handle))
  | finds (handle : RoundHandle) (stream : RoundStream)
      (reattaching : t.phase = .reattaching handle) :
      StreamStep root t (.reattachReturns (.ok stream)) (some { t with phase := .opening stream })
        root
  | opens (stream : RoundStream) (launching : Bool) (opening : t.phase = .opening stream) :
      StreamStep root t .startCollecting
        (some
          { t with
            launching
            phase := .collecting (.start (root.roundDisk t.address t.round) stream) })
        root
  | collects (c c' : RoundCollection) (disk : RoundDisk) (collecting : t.phase = .collecting c)
      (next : c.next (root.roundDisk t.address t.round) = some (c', disk)) :
      StreamStep root t .collect (some { t with phase := .collecting c' })
        (root.writeRound t.address t.round disk)
  | cancels (c c' : RoundCollection) (collecting : t.phase = .collecting c) :
      StreamStep root t .cancelRound (some { t with phase := .collecting c' }) root
  /-- It has no stream after the step, and its bookmark is left alone. -/
  | elsewhere (act : TaskAction) (changed : Option RoundTask) (root' : Root)
      (away : ∀ t', changed = some t' → t'.phase.isStreaming = false)
      (position : root'.position = root.position)
      (unnoted : ∀ (n : LaunchNotes) token, n.afterTask root token t act = n) :
      StreamStep root t act changed root'

section Streaming

variable {cfg : Config} {root root' : Root} {d d' : Daemon} {token : Token} {t : RoundTask}

/-- A step after which the task has no stream. -/
lemma StreamStep.of_away {act : TaskAction} {changed : Option RoundTask}
    (htasks : d'.tasks = Function.update d.tasks token changed)
    (haway : ∀ t', changed = some t' → t'.phase.isStreaming = false)
    (hposition : root'.position = root.position)
    (hunnoted : ∀ (n : LaunchNotes) token, n.afterTask root token t act = n) :
    ∃ changed, d'.tasks = Function.update d.tasks token changed ∧
      StreamStep root t act changed root' :=
  ⟨changed, htasks, .elsewhere act changed root' haway hposition hunnoted⟩

/-- Recording a lifecycle event gives a task its stream when it is the launch of its round. -/
lemma StreamStep.of_due {now : Instant} {due : EventKind × RoundPhase}
    (hdue : t.phase.due t.round = some due) :
    StreamStep root t (.append now) (some { t with phase := due.2 })
      (root.append t.address now due.1) := by
  have haway : due.2.isStreaming = false →
      (∀ (n : LaunchNotes) token, n.afterTask root token t (.append now) = n) →
      StreamStep root t (.append now) (some { t with phase := due.2 })
        (root.append t.address now due.1) := by
    intro haway hunnoted
    refine .elsewhere _ _ _ ?_ rfl hunnoted
    rintro t' ⟨rfl⟩
    exact haway
  unfold RoundPhase.due at hdue
  split at hdue
  · rename_i hphase
    obtain rfl := Option.some.inj hdue
    exact haway rfl fun n token => by simp [LaunchNotes.afterTask, hphase]
  · rename_i hphase
    obtain rfl := Option.some.inj hdue
    exact haway rfl fun n token => by simp [LaunchNotes.afterTask, hphase]
  · rename_i handle stream hphase
    obtain rfl := Option.some.inj hdue
    exact .records now handle stream hphase
  · rename_i stage reason hphase
    obtain rfl := Option.some.inj hdue
    exact haway rfl fun n token => by simp [LaunchNotes.afterTask, hphase]
  · cases hdue

/-- What every step of a task does to its stream and to the position files. -/
theorem StreamStep.of_step {act : TaskAction}
    (h : Daemon.taskStep root d token t act = some (root', d')) :
    ∃ changed, d'.tasks = Function.update d.tasks token changed ∧
      StreamStep root t act changed root' := by
  cases act with
  | readRequest =>
      simp only [Daemon.taskStep] at h
      split at h
      · split at h <;> obtain ⟨rfl, rfl⟩ := h <;>
          exact of_away rfl (by rintro t' ⟨rfl⟩; rfl) rfl fun _ _ => rfl
      · cases h
  | seeCancelled =>
      simp only [Daemon.taskStep] at h
      split at h
      · obtain ⟨-, rfl, rfl⟩ := Option.ite_none_right_eq_some.mp h
        exact of_away rfl (by rintro t' ⟨rfl⟩; rfl) rfl fun _ _ => rfl
      · cases h
  | seeStopping =>
      simp only [Daemon.taskStep] at h
      split at h
      · obtain ⟨-, rfl, rfl⟩ := Option.ite_none_right_eq_some.mp h
        exact of_away rfl (by rintro t' ⟨rfl⟩; rfl) rfl fun _ _ => rfl
      · cases h
  | readConfig config =>
      simp only [Daemon.taskStep] at h
      split at h
      · obtain ⟨rfl, rfl⟩ := h
        exact of_away rfl (by rintro t' ⟨rfl⟩; rfl) rfl fun _ _ => rfl
      · cases h
  | append now =>
      simp only [Daemon.taskStep, Option.map_eq_some_iff, Prod.mk.injEq] at h
      obtain ⟨due, hdue, rfl, rfl⟩ := h
      exact ⟨_, rfl, .of_due hdue⟩
  | launchReturns launched =>
      simp only [Daemon.taskStep] at h
      split at h
      · split at h <;> obtain ⟨rfl, rfl⟩ := h <;>
          exact of_away rfl (by rintro t' ⟨rfl⟩; rfl) rfl fun _ _ => rfl
      · cases h
  | reattachReturns running =>
      simp only [Daemon.taskStep] at h
      split at h
      · rename_i handle hphase
        split at h
        · rename_i stream
          obtain ⟨rfl, rfl⟩ := h
          exact ⟨_, rfl, .finds handle stream hphase⟩
        · obtain ⟨rfl, rfl⟩ := h
          exact of_away rfl (by rintro t' ⟨rfl⟩; rfl) rfl fun _ _ => rfl
      · cases h
  | startCollecting =>
      simp only [Daemon.taskStep] at h
      split at h
      · rename_i stream hphase
        split at h <;> obtain ⟨rfl, rfl⟩ := h <;> exact ⟨_, rfl, .opens stream _ hphase⟩
      · cases h
  | collect =>
      simp only [Daemon.taskStep] at h
      split at h
      · rename_i c hphase
        simp only [Option.map_eq_some_iff, Prod.mk.injEq, Prod.exists] at h
        obtain ⟨c', disk, hnext, rfl, rfl⟩ := h
        exact ⟨_, rfl, .collects c c' disk hphase hnext⟩
      · cases h
  | cancelRound =>
      simp only [Daemon.taskStep] at h
      split at h
      · rename_i c hphase
        obtain ⟨-, h⟩ := Option.ite_none_right_eq_some.mp h
        simp only [Option.map_eq_some_iff, Prod.mk.injEq] at h
        obtain ⟨c', -, rfl, rfl⟩ := h
        exact ⟨_, rfl, .cancels c c' hphase⟩
      · cases h
  | streamEnds endedBecause =>
      simp only [Daemon.taskStep] at h
      split at h
      · rename_i c hphase
        obtain ⟨-, rfl, rfl⟩ := Option.ite_none_right_eq_some.mp h
        refine of_away rfl ?_ rfl fun _ _ => rfl
        rintro t' ⟨rfl⟩
        dsimp only
        rw [RoundPhase.afterStream_eq]
        split <;> rfl
      · cases h
  | dropLaunching =>
      simp only [Daemon.taskStep] at h
      split at h
      · rename_i hphase
        obtain ⟨-, rfl, rfl⟩ := Option.ite_none_right_eq_some.mp h
        refine of_away rfl ?_ rfl fun _ _ => rfl
        rintro t' ⟨rfl⟩
        rw [hphase]
        rfl
      · cases h
  | dropRegistration =>
      simp only [Daemon.taskStep] at h
      split at h
      · obtain ⟨-, rfl, rfl⟩ := Option.ite_none_left_eq_some.mp h
        exact of_away rfl (by rintro t' ⟨rfl⟩; rfl) rfl fun _ _ => rfl
      · cases h
  | dropSlot =>
      simp only [Daemon.taskStep] at h
      split at h
      · obtain ⟨rfl, rfl⟩ := h
        exact of_away rfl (by rintro t' h; cases h) rfl fun _ _ => rfl
      · cases h

/-- Any other step but a reattach gives no task a stream and touches no bookmark. -/
lemma DaemonEffect.untouched {act : DaemonAction} (effect : DaemonEffect cfg root d act root' d')
    (inv : TasksInv d) (hresume : ∀ now, act ≠ .resume now)
    (htask : ∀ token act', act ≠ .task token act') :
    root'.position = root.position ∧ ∀ token t, d'.tasks token = some t →
      d.tasks token = some t ∨ t.phase.isStreaming = false := by
  cases effect with
  | reattaches now a round handle others requeued startup => exact absurd rfl (hresume now)
  | closesLost now a round others requeued startup => exact absurd rfl (hresume now)
  | passesOver now a others requeued startup => exact absurd rfl (hresume now)
  | task token t act root' d' mine effect => exact absurd rfl (htask token act)
  | registers a serving looking queued free =>
      refine ⟨rfl, ?_⟩
      intro token t ht
      rcases entry_of_update ht with ⟨-, hnew⟩ | ⟨-, hold⟩
      · obtain rfl := Option.some.inj hnew
        exact .inr rfl
      · exact .inl hold
  | counts token₀ t₀ serving registered mine =>
      obtain ⟨t₁, ht₁, hphase⟩ := inv.hand token₀ (by rw [registered]; rfl)
      obtain rfl := Option.some.inj (ht₁.symm.trans mine)
      refine ⟨rfl, ?_⟩
      intro token t ht
      rcases entry_of_update ht with ⟨-, hnew⟩ | ⟨-, hold⟩
      · obtain rfl := Option.some.inj hnew
        exact .inr (by rw [hphase]; rfl)
      · exact .inl hold
  | spawns token₀ t₀ serving counted mine =>
      refine ⟨rfl, ?_⟩
      intro token t ht
      rcases entry_of_update ht with ⟨-, hnew⟩ | ⟨-, hold⟩
      · obtain rfl := Option.some.inj hnew
        exact .inr rfl
      · exact .inl hold
  | _ => exact ⟨rfl, fun token t ht => .inl ht⟩

end Streaming

/-! ## The notes and the log -/

/-- Every position file was written by a collection of its round's launch. -/
def WriterNoted (root : Root) (n : LaunchNotes) : Prop :=
  ∀ a round, root.position a round ≠ none →
    ∃ k, n.writer a round = some k ∧ (launchedRounds (root.events a))[k]? = some round

/-- What is noted of a task. -/
structure TaskNoted (root : Root) (n : LaunchNotes) (token : Token) (t : RoundTask) : Prop where
  /-- It collects a launch of its round. -/
  launch : t.phase.isStreaming = true →
    ∃ k, n.launch token = some k ∧ (launchedRounds (root.events t.address))[k]? = some t.round
  found : ∀ handle, t.phase = .reattaching handle → n.reattached token = true
  /-- Nobody has collected a round this daemon has just launched. -/
  fresh : ∀ stream, t.phase = .opening stream → n.reattached token = false →
    root.position t.address t.round = none

/-- What the notes say of a root and the daemon running on it. -/
structure Bookmarked (s : Noted) : Prop where
  writer : WriterNoted s.world.root s.notes
  task : ∀ d, s.world.daemon = some d → ∀ token t, d.tasks token = some t →
    TaskNoted s.world.root s.notes token t

section Bookmarking

variable {cfg : Config} {root root' : Root} {d d' : Daemon} {token : Token} {t : RoundTask}
  {n n' : LaunchNotes}

lemma WriterNoted.keep (held : WriterNoted root n)
    (hgrown : ∀ a, root.events a <+: root'.events a) (hposition : root'.position = root.position)
    (hwriter : n'.writer = n.writer) : WriterNoted root' n' := by
  intro a round hfile
  rw [hposition] at hfile
  obtain ⟨k, hk, hround⟩ := held a round hfile
  exact ⟨k, by rw [hwriter, hk], getElem?_launchedRounds_of_prefix (hgrown a) hround⟩

/-- A task about to collect a round: the notes have its launch, and no file when it is new. -/
lemma TaskNoted.of_opening {stream : RoundStream} (hphase : t.phase = .opening stream)
    (hlaunch : ∃ k, n.launch token = some k ∧
      (launchedRounds (root.events t.address))[k]? = some t.round)
    (hfresh : n.reattached token = false → root.position t.address t.round = none) :
    TaskNoted root n token t where
  launch _ := hlaunch
  found handle h := by
    rw [hphase] at h
    cases h
  fresh _ _ := hfresh

/-- A task that collects a round: the notes have its launch. -/
lemma TaskNoted.of_collecting {c : RoundCollection} (hphase : t.phase = .collecting c)
    (hlaunch : ∃ k, n.launch token = some k ∧
      (launchedRounds (root.events t.address))[k]? = some t.round) : TaskNoted root n token t where
  launch _ := hlaunch
  found handle h := by
    rw [hphase] at h
    cases h
  fresh stream h := by
    rw [hphase] at h
    cases h

lemma TaskNoted.keep (held : TaskNoted root n token t)
    (hgrown : root.events t.address <+: root'.events t.address)
    (hposition : ∀ stream, t.phase = .opening stream →
      root'.position t.address t.round = root.position t.address t.round)
    (hlaunch : n'.launch token = n.launch token)
    (hreattached : n'.reattached token = n.reattached token) : TaskNoted root' n' token t := by
  refine ⟨?_, ?_, ?_⟩
  · intro hstreaming
    obtain ⟨k, hk, hround⟩ := held.launch hstreaming
    exact ⟨k, by rw [hlaunch, hk], getElem?_launchedRounds_of_prefix hgrown hround⟩
  · intro handle hphase
    rw [hreattached]
    exact held.found handle hphase
  · intro stream hphase hnew
    rw [hreattached] at hnew
    rw [hposition stream hphase]
    exact held.fresh stream hphase hnew

lemma TaskNoted.of_away (haway : t.phase.isStreaming = false) : TaskNoted root n token t := by
  refine ⟨?_, ?_, ?_⟩
  · intro hstreaming
    rw [haway] at hstreaming
    cases hstreaming
  · intro handle hphase
    rw [hphase] at haway
    cases haway
  · intro stream hphase
    rw [hphase] at haway
    cases haway

/-- A round whose launch is about to be recorded has never been collected. -/
lemma DaemonInv.position_of_recording (inv : DaemonInv cfg root d) (writer : WriterNoted root n)
    (ht : d.tasks token = some t) (hstage : t.phase.stage = .started) :
    t.round = (JobProgress.ofEvents (root.events t.address)).rounds ∧
      root.position t.address t.round = none := by
  obtain ⟨hstands, hround, -⟩ := (inv.job t.address).atWork token t.crewman
    (Daemon.crew_of_task ht) (by simp [RoundTask.crewman, hstage])
  have hround : t.round = (JobProgress.ofEvents (root.events t.address)).rounds := by
    simpa [RoundTask.crewman, hstage, JobView.rounds, Daemon.view] using hround
  have hstands : standing (root.events t.address) = some .started := by
    rw [show some Standing.started = some (Stage.standing t.phase.stage) by rw [hstage]; rfl]
    exact hstands
  have launches := launchesIncrease_of_standing hstands (inv.job t.address).increase
  refine ⟨hround, ?_⟩
  by_contra hfile
  -- A position file is that of a launch, and every launch is of an earlier round.
  obtain ⟨k, -, hk⟩ := writer t.address t.round hfile
  have hearlier := launches.unlaunched rfl t.round (List.mem_of_getElem? hk)
  omega

/-- A round a starting daemon is to reattach to is the last one launched. -/
lemma DaemonInv.launch_of_startup (inv : DaemonInv cfg root d) {a : JobAddress} {round : ℕ}
    {handle : RoundHandle} {others : List (JobAddress × Resumption)} {requeued : List JobAddress}
    (hstartup : d.startup = .resuming ((a, .reattach round handle) :: others) requeued) :
    (launchedRounds (root.events a))[(launchedRounds (root.events a)).length - 1]? =
      some round := by
  obtain ⟨s, hs⟩ := (inv.job a).stands
  obtain ⟨rfl, hround⟩ := launched_of_owed hs (inv.owed_of_startup hstartup)
  have hlast := (launchesIncrease_of_standing hs (inv.job a).increase).last rfl
  rw [List.getLast?_eq_getElem?] at hlast
  rw [hround]
  exact hlast

/-- What a task's next effect is to its round's position file. -/
lemma RoundCollection.position_of_next {c c' : RoundCollection} {disk disk' : RoundDisk}
    (h : c.next disk = some (c', disk')) :
    c.unrecorded.isSome = true ∨ disk'.position = disk.position := by
  unfold RoundCollection.next at h
  split at h
  · cases h
  · rename_i inner disk'' hnext
    obtain ⟨rfl, rfl⟩ := h
    unfold Collection.next at hnext
    split at hnext
    · rename_i seq hseq
      exact .inl (by rw [hseq]; rfl)
    · split at hnext
      · cases hnext
      · obtain ⟨rfl, rfl⟩ := hnext
        right
        unfold RoundDisk.receive
        split <;> rfl

lemma Root.writeRound_position (root : Root) (a b : JobAddress) (round round' : ℕ)
    (disk : RoundDisk) : (root.writeRound a round disk).position b round' =
      if b = a ∧ round' = round then disk.position else root.position b round' := by
  simp only [Root.writeRound]
  by_cases hb : b = a
  · subst hb
    rw [Function.update_self, Function.update_apply]
    simp
  · rw [Function.update_of_ne hb, if_neg (fun h => hb h.1)]

/-- A collection writes its own round's position file. -/
lemma WriterNoted.collect (writer : WriterNoted root n) {c c' : RoundCollection} {disk : RoundDisk}
    {k : ℕ} (hcollecting : t.phase = .collecting c) (hlaunch : n.launch token = some k)
    (hround : (launchedRounds (root.events t.address))[k]? = some t.round)
    (hnext : c.next (root.roundDisk t.address t.round) = some (c', disk))
    (hgrown : ∀ a, root.events a <+: (root.writeRound t.address t.round disk).events a) :
    WriterNoted (root.writeRound t.address t.round disk) (n.afterTask root token t .collect) := by
  intro a round hfile
  rw [Root.writeRound_position] at hfile
  simp only [LaunchNotes.afterTask, hcollecting]
  by_cases hmine : a = t.address ∧ round = t.round
  · obtain ⟨rfl, rfl⟩ := hmine
    cases hrecords : c.unrecorded with
    | some seq =>
        refine ⟨k, ?_, getElem?_launchedRounds_of_prefix (hgrown _) hround⟩
        simp [hlaunch]
    | none =>
        have hsame : disk.position = root.position t.address t.round := by
          simpa [hrecords, Root.roundDisk] using RoundCollection.position_of_next hnext
        rw [if_pos ⟨rfl, rfl⟩, hsame] at hfile
        obtain ⟨k', hk', hround'⟩ := writer _ _ hfile
        exact ⟨k', by simpa using hk', getElem?_launchedRounds_of_prefix (hgrown _) hround'⟩
  · rw [if_neg hmine] at hfile
    obtain ⟨k', hk', hround'⟩ := writer _ _ hfile
    refine ⟨k', ?_, getElem?_launchedRounds_of_prefix (hgrown _) hround'⟩
    split
    · dsimp only
      by_cases ha : a = t.address
      · subst ha
        rw [Function.update_self, Function.update_of_ne fun h => hmine ⟨rfl, h⟩]
        exact hk'
      · rw [Function.update_of_ne ha]
        exact hk'
    · exact hk'

/-- What a step of a task keeps of the notes. -/
lemma StreamStep.keeps {act : TaskAction} {changed : Option RoundTask}
    (move : StreamStep root t act changed root') (inv : DaemonInv cfg root d)
    (hgrown : ∀ a, root.events a <+: root'.events a)
    (ht : d.tasks token = some t) (htasks : d'.tasks = Function.update d.tasks token changed)
    (writer : WriterNoted root n)
    (task : ∀ token t, d.tasks token = some t → TaskNoted root n token t) :
    WriterNoted root' (n.afterTask root token t act) ∧
      ∀ token' t', d'.tasks token' = some t' →
        TaskNoted root' (n.afterTask root token t act) token' t' := by
  have hself := task token t ht
  cases move with
  | records now handle stream recording =>
      obtain ⟨hround, hposition⟩ := inv.position_of_recording writer ht (by rw [recording]; rfl)
      have hnotes : n.afterTask root token t (.append now) =
          { n with
            launch := Function.update n.launch token
              (some (launchedRounds (root.events t.address)).length) } := by
        simp [LaunchNotes.afterTask, recording]
      rw [hnotes]
      refine ⟨writer.keep hgrown rfl rfl, ?_⟩
      intro token' t' ht'
      rw [htasks] at ht'
      rcases entry_of_update ht' with ⟨rfl, hnew⟩ | ⟨hne, hold⟩
      · obtain rfl := Option.some.inj hnew
        refine .of_opening rfl ⟨_, Function.update_self .., ?_⟩ fun _ => hposition
        simp [Root.append, launchedRounds_snoc, EventKind.lifecycle, hround]
      · exact (task token' t' hold).keep (hgrown _) (fun _ _ => rfl)
          (Function.update_of_ne hne ..) rfl
  | finds handle stream reattaching =>
      refine ⟨writer.keep hgrown rfl rfl, ?_⟩
      intro token' t' ht'
      rw [htasks] at ht'
      rcases entry_of_update ht' with ⟨rfl, hnew⟩ | ⟨-, hold⟩
      · obtain rfl := Option.some.inj hnew
        refine .of_opening rfl (hself.launch (by rw [reattaching]; rfl)) ?_
        intro hnew
        exact absurd (hself.found handle reattaching) (by simpa [LaunchNotes.afterTask] using hnew)
      · exact task token' t' hold
  | opens stream launching opening =>
      refine ⟨writer.keep hgrown rfl rfl, ?_⟩
      intro token' t' ht'
      rw [htasks] at ht'
      rcases entry_of_update ht' with ⟨rfl, hnew⟩ | ⟨-, hold⟩
      · obtain rfl := Option.some.inj hnew
        exact .of_collecting rfl (hself.launch (by rw [opening]; rfl))
      · exact task token' t' hold
  | collects c c' disk collecting next =>
      obtain ⟨k, hk, hlaunched⟩ := hself.launch (by rw [collecting]; rfl)
      refine ⟨writer.collect collecting hk hlaunched next hgrown, ?_⟩
      have hnotes : (n.afterTask root token t .collect).launch = n.launch ∧
          (n.afterTask root token t .collect).reattached = n.reattached := by
        simp only [LaunchNotes.afterTask, collecting]
        split <;> exact ⟨rfl, rfl⟩
      intro token' t' ht'
      rw [htasks] at ht'
      rcases entry_of_update ht' with ⟨rfl, hnew⟩ | ⟨hne, hold⟩
      · obtain rfl := Option.some.inj hnew
        exact .of_collecting rfl ⟨k, by rw [hnotes.1, hk],
          getElem?_launchedRounds_of_prefix (hgrown _) hlaunched⟩
      · refine (task token' t' hold).keep (hgrown _) ?_ (by rw [hnotes.1]) (by rw [hnotes.2])
        intro stream hopening
        rw [Root.writeRound_position, if_neg]
        -- No other registered task is of this round.
        rintro ⟨haddress, hround⟩
        exact hne (inv.registered_unique ht hold haddress hround (by rw [collecting]; rfl)
          (by rw [hopening]; rfl))
  | cancels c c' collecting =>
      refine ⟨writer.keep hgrown rfl rfl, ?_⟩
      intro token' t' ht'
      rw [htasks] at ht'
      rcases entry_of_update ht' with ⟨rfl, hnew⟩ | ⟨-, hold⟩
      · obtain rfl := Option.some.inj hnew
        exact .of_collecting rfl (hself.launch (by rw [collecting]; rfl))
      · exact task token' t' hold
  | elsewhere _ _ _ away position unnoted =>
      rw [unnoted]
      refine ⟨writer.keep hgrown position rfl, ?_⟩
      intro token' t' ht'
      rw [htasks] at ht'
      rcases entry_of_update ht' with ⟨-, hnew⟩ | ⟨-, hold⟩
      · exact .of_away (away t' hnew)
      · exact (task token' t' hold).keep (hgrown _) (fun _ _ => by rw [position]) rfl rfl

/-- What a step of a daemon keeps of the notes. -/
lemma Bookmarked.daemonStep (writer : WriterNoted root n) (inv : DaemonInv cfg root d)
    (task : ∀ token t, d.tasks token = some t → TaskNoted root n token t)
    {act : DaemonAction} (hgrown : ∀ a, root.events a <+: root'.events a)
    (h : Daemon.step cfg (root, d) act = some (root', d')) :
    WriterNoted root' (n.afterDaemon root d act) ∧
      ∀ token t, d'.tasks token = some t → TaskNoted root' (n.afterDaemon root d act) token t := by
  by_cases htask : ∃ token act', act = .task token act'
  · obtain ⟨token, act', rfl⟩ := htask
    obtain ⟨t, ht, hstep⟩ := Option.bind_eq_some_iff.mp h
    have ht : d.tasks token = some t := ht
    obtain ⟨changed, htasks, hmove⟩ := StreamStep.of_step hstep
    simp only [LaunchNotes.afterDaemon, ht]
    exact hmove.keeps inv hgrown ht htasks writer task
  · have effect := DaemonEffect.of_step h
    by_cases hresume : ∃ now, act = .resume now
    · obtain ⟨now, rfl⟩ := hresume
      cases effect with
      | reattaches _ a round handle others requeued startup =>
          simp only [LaunchNotes.afterDaemon, startup]
          refine ⟨writer.keep hgrown rfl rfl, ?_⟩
          intro token t ht
          rcases entry_of_update ht with ⟨rfl, hnew⟩ | ⟨hne, hold⟩
          · obtain rfl := Option.some.inj hnew
            exact ⟨fun _ => ⟨_, Function.update_self .., inv.launch_of_startup startup⟩,
              fun _ _ => Function.update_self .., fun _ h => (nomatch h)⟩
          · exact (task token t hold).keep (hgrown _) (fun _ _ => rfl)
              (Function.update_of_ne hne ..) (Function.update_of_ne hne ..)
      | closesLost _ a round others requeued startup =>
          simp only [LaunchNotes.afterDaemon, startup]
          exact ⟨writer.keep hgrown rfl rfl, fun token t ht =>
            (task token t ht).keep (hgrown _) (fun _ _ => rfl) rfl rfl⟩
      | passesOver _ a others requeued startup =>
          simp only [LaunchNotes.afterDaemon, startup]
          exact ⟨writer, task⟩
    · have hnotes : (n.afterDaemon root d act).launch = n.launch ∧
          (n.afterDaemon root d act).writer = n.writer ∧ ∀ token, token ≠ d.nextToken →
            (n.afterDaemon root d act).reattached token = n.reattached token := by
        unfold LaunchNotes.afterDaemon
        split
        · exact ⟨rfl, rfl, fun token hne => Function.update_of_ne hne ..⟩
        · exact absurd ⟨_, rfl⟩ hresume
        · exact absurd ⟨_, _, rfl⟩ htask
        · exact ⟨rfl, rfl, fun _ _ => rfl⟩
      obtain ⟨hlaunch, hwriter, hreattached⟩ := hnotes
      obtain ⟨hposition, htasks⟩ := effect.untouched inv.toTasksInv
        (fun now h => hresume ⟨now, h⟩) fun token act' h => htask ⟨token, act', h⟩
      refine ⟨writer.keep hgrown hposition hwriter, ?_⟩
      intro token t ht
      rcases htasks token t ht with hold | haway
      · exact (task token t hold).keep (hgrown _) (fun _ _ => by rw [hposition])
          (by rw [hlaunch]) (hreattached token (Nat.ne_of_lt (inv.lt_next hold)))
      · exact .of_away haway

variable {s s' : Noted}

/-- Every step keeps the notes true, kills and restarts included. -/
theorem Bookmarked.step (bookmarked : Bookmarked s) (inv : WorldInv cfg s.world)
    {act : WorldAction} (h : Noted.step cfg s act = some s') : Bookmarked s' := by
  obtain ⟨hworld, hnotes⟩ := Noted.of_step h
  have hgrown := inv.grows hworld
  obtain ⟨world, notes⟩ := s'
  obtain rfl : notes = s.notes.after s.world act := hnotes
  dsimp only at hworld hgrown
  cases act with
  | start walk =>
      obtain ⟨-, -, rfl⟩ := World.of_start hworld
      refine ⟨bookmarked.writer.keep hgrown rfl rfl, ?_⟩
      rintro d ⟨rfl⟩ token t ht
      cases ht
  | kill =>
      obtain rfl := World.of_kill hworld
      refine ⟨bookmarked.writer, ?_⟩
      intro d hd
      cases hd
  | act act =>
      obtain ⟨d, root', d', hd, hstep, rfl⟩ := World.of_act hworld
      obtain ⟨writer, task⟩ :=
        Bookmarked.daemonStep bookmarked.writer (inv.daemon d hd)
          (bookmarked.task d hd) hgrown hstep
      simp only [LaunchNotes.after, hd]
      refine ⟨writer, ?_⟩
      rintro d'' ⟨rfl⟩
      exact task

theorem Bookmarked.of_reachable
    (reached : Reachable (Noted.step cfg) anyAction (fun s => s = .fresh) s) : Bookmarked s := by
  refine (reached.invariant (I := fun s => Bookmarked s ∧ WorldInv cfg s.world) ?_ ?_).1
  · rintro s rfl
    have hfresh : Reachable (World.step cfg) anyAction (fun w => w = .fresh) .fresh := .of_init rfl
    exact ⟨⟨fun a round h => absurd rfl h, fun d hd => nomatch hd⟩, .of_reachable hfresh⟩
  · rintro s act t ⟨bookmarked, inv⟩ - hstep
    exact ⟨bookmarked.step inv hstep, inv.step (Noted.of_step hstep).1⟩

/-- **No round is collected from another round's bookmark.**  In every run of daemons on a root, a
round the daemon has just launched has no position file when its collection starts, so it starts
at 0 and drops none of the round's frames; and a round an earlier daemon launched has, if any, the
position file its own launch's collection wrote last.  Nobody else collects the round meanwhile. -/
theorem collected_from_own_bookmark
    (reached : Reachable (Noted.step cfg) anyAction (fun s => s = .fresh) s)
    (hd : s.world.daemon = some d) (ht : d.tasks token = some t) {stream : RoundStream}
    (hopening : t.phase = .opening stream) :
    let disk := s.world.root.roundDisk t.address t.round
    (s.notes.reattached token = false →
        disk.position = none ∧ disk.lastSeqRouted = 0 ∧
        (Numbered stream.lines →
          ∀ routed ∈ (Collection.start disk stream.lines).position.routeAll stream.lines,
            routed ≠ .alreadyCollected)) ∧
      (∃ launch, s.notes.launch token = some launch ∧
        (launchedRounds disk.events)[launch]? = some t.round ∧
        (disk.position ≠ none → s.notes.writer t.address t.round = some launch)) ∧
      ∀ token' t', d.tasks token' = some t' → t'.address = t.address → t'.round = t.round →
        t'.phase.isRegistered = true → token' = token := by
  intro disk
  have inv := (WorldInv.of_reachable (Noted.world_reachable reached)).daemon d hd
  have bookmarked := Bookmarked.of_reachable reached
  have noted := bookmarked.task d hd token t ht
  obtain ⟨launch, hlaunch, hround⟩ := noted.launch (by rw [hopening]; rfl)
  refine ⟨?_, ⟨launch, hlaunch, hround, ?_⟩, ?_⟩
  · intro hnew
    have hposition : disk.position = none := noted.fresh stream hopening hnew
    have hfirst : disk.lastSeqRouted = 0 := by
      rw [RoundDisk.lastSeqRouted, hposition]
      rfl
    refine ⟨hposition, hfirst, fun hnumbered => ?_⟩
    rw [Collection.start, hfirst]
    exact hnumbered.routeAll_ne
  · intro hfile
    obtain ⟨k, hk, hround'⟩ := bookmarked.writer t.address t.round hfile
    obtain ⟨standing, hstands⟩ := (inv.job t.address).stands
    have launches := launchesIncrease_of_standing hstands (inv.job t.address).increase
    -- No two launches are of one round.
    obtain ⟨hbound, -⟩ := List.getElem?_eq_some_iff.mp hround'
    obtain rfl : k = launch :=
      (List.getElem?_inj hbound launches.increase.nodup).mp (hround'.trans hround.symm)
    exact hk
  · intro token' t' ht' haddress hround' hheld
    exact inv.registered_unique ht ht' haddress hround' (by rw [hopening]; rfl) hheld

/-- A job's round is launched, and killed with its daemon once its first frame is bookmarked; the
next daemon finds it again. -/
def reattachedWhileCollected : List WorldAction :=
  daemonRunning (.serve :: (submitting 1 0 ++ dispatching 0 ++
    [.task 0 (.readConfig (.ok ())), .task 0 (.append 1),
      .task 0 (.launchReturns (.ok (.docker "round", roundStream))),
      .task 0 (.append 2), .task 0 .startCollecting, .task 0 .collect, .task 0 .collect])) ++
    .kill :: .start [jobAddress] :: running
      [.resume 5, .task 0 (.reattachReturns (.ok roundStream))]

/-- The second collection goes on from the bookmark the first one left. -/
theorem collected_from_own_bookmark_reattached : ∃ s d t,
    exec (Noted.step pairConfig) .fresh reattachedWhileCollected = some s ∧
      s.world.daemon = some d ∧ d.tasks 0 = some t ∧ t.address = jobAddress ∧
      s.world.root.position jobAddress 1 = some 1 ∧ ∃ launch, s.notes.launch 0 = some launch ∧
        s.notes.writer jobAddress 1 = some launch := by
  have hdone : ((exec (Noted.step pairConfig) .fresh reattachedWhileCollected).bind
      fun s => s.world.daemon.bind fun d => (d.tasks 0).map fun t =>
        ((t.phase.isOpening, decide (t.address = jobAddress), t.round),
          s.world.root.position jobAddress 1)) = some ((true, true, 1), some 1) := by
    decide +kernel
  obtain ⟨s, hs, hd⟩ := Option.bind_eq_some_iff.mp hdone
  obtain ⟨d, hd, ht⟩ := Option.bind_eq_some_iff.mp hd
  obtain ⟨t, ht, hseen⟩ := Option.map_eq_some_iff.mp ht
  simp only [Prod.mk.injEq, decide_eq_true_eq] at hseen
  obtain ⟨⟨hwaits, haddress, hround⟩, hposition⟩ := hseen
  cases hphase : t.phase <;> simp [hphase, RoundPhase.isOpening] at hwaits
  obtain ⟨-, ⟨launch, hlaunch, -, hwriter⟩, -⟩ :=
    collected_from_own_bookmark (.of_exec rfl hs) hd ht hphase
  rw [haddress, hround] at hwriter
  exact ⟨s, d, t, hs, hd, ht, haddress, hposition, launch, hlaunch,
    hwriter (by simp [Root.roundDisk, hposition])⟩

end Bookmarking

end AssemblyLine
