import AssemblyLine.Daemon.Places
import AssemblyLine.Framework.Exclusion

/-!
# The root's lock

A daemon's process holds its root's lock from before it reads the jobs until `serve` drops it, and
lives on until its runtime is dropped; the rounds it is collecting and the submits past their grace
period live on with it.  So a root is written by its holder alone, and the daemons on it are one
daemon at a time, in the runs in which every process has nothing left that could write when it drops
the lock (`root_written_by_holder`).  A daemon that is told to stop while a round is being collected
is not such a process, and the next daemon collects the round beside it (`round_collected_twice`).
-/

namespace AssemblyLine

/-! ## A daemon's process -/

/-- Whether a round's task can still append to its job's logs or rewrite its position file. -/
def RoundPhase.mayWrite : RoundPhase → Bool
  | .returned => false
  | .deregistered => false
  | _ => true

def RoundPhase.isCollecting : RoundPhase → Bool
  | .collecting _ => true
  | _ => false

/-- Where a daemon's process is in `serve`. -/
inductive ServeStage
  /-- Giving every job what it is owed, then serving until told to stop. -/
  | serving
  /-- Launching nothing more, and waiting for the dispatcher. -/
  | stopping
  /-- The dispatcher has returned; launches in progress have until their grace is over. -/
  | settling
  /-- The lock is dropped; the runtime is not yet. -/
  | returned
deriving DecidableEq, Repr

structure DaemonProcess where
  daemon : Daemon
  stage : ServeStage
  /-- The repositories of the submits in flight. -/
  inFlight : List RepoKey
  /-- Whether a client's request can still be at work. -/
  clients : Bool

inductive ProcessAction
  | daemon (act : DaemonAction)
  /-- The shutdown resolves, and the requests in flight have finished or are past their grace. -/
  | stopServing (finished : Bool)
  | joinDispatcher

namespace DaemonProcess

/-- What the stages of `serve`, and the end of the requests, leave of a daemon's steps.  `serve`
gives the jobs what they are owed and signals the stop itself; a submit and a cancel are a client's
request. -/
def permits (p : DaemonProcess) : DaemonAction → Bool
  | .resume _ | .requeue | .serve => p.stage = .serving
  | .hold _ _ | .continueJob _ | .createJob _ _ | .recordRequest _ _ _ _ | .enqueue _ | .refuse _ =>
    p.clients
  | .cancel _ _ => p.clients
  | .stopLaunching => false
  | .receive | .slotFree | .look | .countLaunching | .spawn | .dispatcherStops | .task _ _ => true

/-- The submits in flight after a step. -/
def inFlightAfter (p : DaemonProcess) : DaemonAction → List RepoKey
  | .hold key _ => key :: p.inFlight
  | .enqueue key => p.inFlight.erase key
  | .refuse key => p.inFlight.erase key
  | _ => p.inFlight

/-- A process that has read every job under its root. -/
def start (root : Root) (walk : List JobAddress) : Option DaemonProcess :=
  if walk.Perm root.jobDirsBelow then some ⟨.started root walk, .serving, [], true⟩ else none

/-- `serve`, up to dropping the lock, and the tasks that run beside it. -/
def step (cfg : Config) (s : Root × DaemonProcess) : ProcessAction → Option (Root × DaemonProcess)
  | .daemon act =>
    if s.2.permits act then
      (Daemon.step cfg (s.1, s.2.daemon) act).map fun (root, daemon) =>
        (root, { s.2 with daemon, inFlight := s.2.inFlightAfter act })
    else none
  | .stopServing finished =>
    if s.2.stage = .serving ∧ (finished = true → s.2.inFlight = []) then
      (Daemon.step cfg (s.1, s.2.daemon) .stopLaunching).map fun (root, daemon) =>
        (root, { s.2 with daemon, stage := .stopping, clients := !finished })
    else none
  | .joinDispatcher =>
    if s.2.stage = .stopping ∧ s.2.daemon.dispatcher = .returned then
      some (s.1, { s.2 with stage := .settling })
    else none

/-- Drop the lock: at the end of `serve`, or when it fails before it listens. -/
def dropLock (p : DaemonProcess) : Option DaemonProcess :=
  match p.stage with
  | .serving => if p.daemon.isServing then none else some { p with stage := .returned }
  | .stopping => none
  | .settling => some { p with stage := .returned }
  | .returned => none

/-- The daemons' processes, as processes that share a root under its lock. -/
def worker (cfg : Config) : Worker Root DaemonProcess ProcessAction (List JobAddress) where
  start := start
  step := step cfg
  release := dropLock

/-- Nothing in the process can still write: no client's request is at work, and every round's task
has returned. -/
def Quiet (p : DaemonProcess) : Prop :=
  (p.daemon.isServing = true → p.clients = false) ∧
    ∀ token, token < p.daemon.nextToken →
      (p.daemon.tasks token).all (fun t => !t.phase.mayWrite) = true

instance (p : DaemonProcess) : Decidable p.Quiet := inferInstanceAs (Decidable (_ ∧ _))

/-- Whether the process is collecting a job's round. -/
def Collects (p : DaemonProcess) (a : JobAddress) (round : ℕ) : Prop :=
  ∃ token, ((p.daemon.tasks token).any fun t =>
    decide (t.address = a ∧ t.round = round) && t.phase.isCollecting) = true

end DaemonProcess

/-- A root, the daemons' processes on its machine, by their ids, and which of them
holds its lock. -/
abbrev RootHost := Shared ℕ Root DaemonProcess

/-- A root no daemon has run on, and no process. -/
def RootHost.fresh : RootHost := ⟨.empty, none, fun _ => none⟩

/-! ## Steps -/

section Steps

variable {cfg : Config} {root root' : Root} {d d' : Daemon} {token : Token} {t : RoundTask}

/-- A dispatcher that has returned stays so. -/
lemma DaemonEffect.keepsReturned {act : DaemonAction}
    (effect : DaemonEffect cfg root d act root' d')
    (hreturned : d.dispatcher = .returned) : d'.dispatcher = .returned := by
  cases effect with
  | receives b pending serving receiving first => simp [receiving] at hreturned
  | findsSlot b serving waiting free => simp [waiting] at hreturned
  | registers b serving looking queued free => simp [looking] at hreturned
  | skips b serving looking why => simp [looking] at hreturned
  | counts token t serving registered mine => simp [registered] at hreturned
  | spawns token t serving counted mine => simp [counted] at hreturned
  | returns serving idle stopping => rfl
  | task token t act root' d' mine effect => exact effect.frame.dispatcher.trans hreturned
  | _ => exact hreturned

/-- A task that has returned only drops what it holds. -/
lemma taskStep_of_returned {act : TaskAction} (hover : t.phase.mayWrite = false)
    (h : Daemon.taskStep root d token t act = some (root', d')) :
    root' = root ∧ d'.startup = d.startup ∧ d'.dispatcher = d.dispatcher ∧
      ∃ changed, d'.tasks = Function.update d.tasks token changed ∧
        ∀ t' ∈ changed, t'.phase.mayWrite = false := by
  have hphase : t.phase = .returned ∨ t.phase = .deregistered := by
    cases hphase : t.phase <;> simp [hphase, RoundPhase.mayWrite] at hover ⊢
  rcases hphase with hphase | hphase
  · cases act with
    | dropLaunching =>
        simp only [Daemon.taskStep, hphase, Option.ite_none_right_eq_some, Option.some.injEq,
          Prod.mk.injEq] at h
        obtain ⟨-, rfl, rfl⟩ := h
        refine ⟨rfl, rfl, rfl, _, rfl, ?_⟩
        rintro t' ⟨rfl⟩
        rfl
    | dropRegistration =>
        simp only [Daemon.taskStep, hphase, Option.ite_none_left_eq_some, Option.some.injEq,
          Prod.mk.injEq] at h
        obtain ⟨-, rfl, rfl⟩ := h
        refine ⟨rfl, rfl, rfl, _, rfl, ?_⟩
        rintro t' ⟨rfl⟩
        rfl
    | _ => simp [Daemon.taskStep, hphase, RoundPhase.due] at h
  · cases act with
    | dropSlot =>
        simp only [Daemon.taskStep, hphase, Option.some.injEq, Prod.mk.injEq] at h
        obtain ⟨rfl, rfl⟩ := h
        refine ⟨rfl, rfl, rfl, none, rfl, ?_⟩
        rintro t' ht'
        cases ht'
    | _ => simp [Daemon.taskStep, hphase, RoundPhase.due] at h

namespace DaemonProcess

variable {p p' : DaemonProcess} {act : ProcessAction}

/-- What always holds of the process that holds the lock. -/
structure Sound (p : DaemonProcess) : Prop where
  tasks : TasksInv p.daemon
  settling : p.stage = .settling → p.daemon.dispatcher = .returned

/-- A process that has dropped the lock and has nothing left that could write. -/
structure Idle (p : DaemonProcess) : Prop where
  returned : p.stage = .returned
  stopped : p.daemon.isServing = true → p.daemon.dispatcher = .returned ∧ p.clients = false
  rounds : ∀ token t, p.daemon.tasks token = some t → t.phase.mayWrite = false

lemma Sound.started {walk : List JobAddress} (h : start root walk = some p) : p.Sound := by
  simp only [start, Option.ite_none_right_eq_some, Option.some.injEq] at h
  obtain ⟨-, rfl⟩ := h
  refine ⟨⟨?_, ?_, ?_, ?_⟩, ?_⟩
  · intro token _
    rfl
  · intro token t ht
    cases ht
  · intro token hhand
    cases hhand
  · intro token t stage reason ht
    cases ht
  · intro hstage
    cases hstage

lemma Sound.step (sound : p.Sound) (h : DaemonProcess.step cfg (root, p) act = some (root', p')) :
    p'.Sound := by
  cases act with
  | daemon act =>
      simp only [DaemonProcess.step, Option.ite_none_right_eq_some, Option.map_eq_some_iff,
        Prod.mk.injEq] at h
      obtain ⟨-, ⟨root'', d'⟩, hstep, rfl, rfl⟩ := h
      have effect := DaemonEffect.of_step hstep
      exact ⟨effect.keepsTasks sound.tasks, fun hs => effect.keepsReturned (sound.settling hs)⟩
  | stopServing finished =>
      simp only [DaemonProcess.step, Option.ite_none_right_eq_some, Option.map_eq_some_iff,
        Prod.mk.injEq] at h
      obtain ⟨-, ⟨root'', d'⟩, hstep, rfl, rfl⟩ := h
      exact ⟨(DaemonEffect.of_step hstep).keepsTasks sound.tasks, fun hs => nomatch hs⟩
  | joinDispatcher =>
      simp only [DaemonProcess.step, Option.ite_none_right_eq_some, Option.some.injEq,
        Prod.mk.injEq] at h
      obtain ⟨⟨-, hreturned⟩, rfl, rfl⟩ := h
      exact ⟨sound.tasks, fun _ => hreturned⟩

lemma Sound.dropLock (sound : p.Sound) (hquiet : p.Quiet) (h : p.dropLock = some p') :
    p'.Idle := by
  obtain ⟨hclients, hrounds⟩ := hquiet
  have hover : ∀ token t, p.daemon.tasks token = some t → t.phase.mayWrite = false := by
    intro token t ht
    have hall := hrounds token (sound.tasks.lt_next ht)
    simpa [ht] using hall
  unfold DaemonProcess.dropLock at h
  split at h
  · split at h
    · cases h
    · rename_i hstarting
      obtain rfl := Option.some.inj h
      exact ⟨rfl, fun hserving => absurd hserving hstarting, hover⟩
  · cases h
  · rename_i hsettling
    obtain rfl := Option.some.inj h
    exact ⟨rfl, fun hserving => ⟨sound.settling hsettling, hclients hserving⟩, hover⟩
  · cases h

/-- An idle process touches nothing, and stays idle. -/
lemma Idle.step (idle : p.Idle) (h : DaemonProcess.step cfg (root, p) act = some (root', p')) :
    root' = root ∧ p'.Idle := by
  have hreturned := idle.returned
  cases act with
  | daemon act =>
      simp only [DaemonProcess.step, Option.ite_none_right_eq_some, Option.map_eq_some_iff,
        Prod.mk.injEq] at h
      obtain ⟨hpermits, ⟨root'', d'⟩, hstep, rfl, rfl⟩ := h
      have hrequest : p.daemon.isServing = true → p.clients = true → False := by
        intro hserving hon
        rw [(idle.stopped hserving).2] at hon
        cases hon
      have hdispatches : p.daemon.isServing = true → p.daemon.dispatcher ≠ .returned → False :=
        fun hserving hdispatcher => hdispatcher (idle.stopped hserving).1
      cases DaemonEffect.of_step hstep with
      | reattaches now b round handle others requeued startup =>
          simp [permits, hreturned] at hpermits
      | closesLost now b round others requeued startup => simp [permits, hreturned] at hpermits
      | passesOver now b others requeued startup => simp [permits, hreturned] at hpermits
      | requeues b requeued startup => simp [permits, hreturned] at hpermits
      | serves startup => simp [permits, hreturned] at hpermits
      | stopsLaunching serving => cases hpermits
      | receives b pending serving receiving first =>
          exact (hdispatches serving (by simp [receiving])).elim
      | findsSlot b serving waiting free => exact (hdispatches serving (by simp [waiting])).elim
      | registers b serving looking queued free =>
          exact (hdispatches serving (by simp [looking])).elim
      | skips b serving looking why => exact (hdispatches serving (by simp [looking])).elim
      | counts token t serving registered mine =>
          exact (hdispatches serving (by simp [registered])).elim
      | spawns token t serving counted mine => exact (hdispatches serving (by simp [counted])).elim
      | returns serving atRest stopping =>
          refine (hdispatches serving ?_).elim
          rcases atRest with h | ⟨b, h⟩ <;> simp [h]
      | task token t act root' d' mine effect =>
          simp only [Daemon.step, mine, Option.bind_some] at hstep
          obtain ⟨hroot, hstartup, hdispatcher, changed, htasks, hchanged⟩ :=
            taskStep_of_returned (idle.rounds token t mine) hstep
          refine ⟨hroot, idle.returned, ?_, ?_⟩
          · intro hserving
            dsimp only at hserving ⊢
            rw [Daemon.isServing, hstartup] at hserving
            rw [hdispatcher]
            exact idle.stopped hserving
          · intro token' t' ht'
            dsimp only at ht'
            rw [htasks] at ht'
            rcases entry_of_update ht' with ⟨-, hnew⟩ | ⟨-, hold⟩
            · exact hchanged t' hnew
            · exact idle.rounds token' t' hold
      | _ => exact (hrequest ‹_› hpermits).elim
  | stopServing finished =>
      simp [DaemonProcess.step, hreturned] at h
  | joinDispatcher => simp [DaemonProcess.step, hreturned] at h

/-- Dropping the lock when quiet leaves nothing at work. -/
theorem settles (cfg : Config) : (worker cfg).Settles Sound Quiet Idle where
  starts _ _ _ h := Sound.started h
  steps _ _ _ _ _ sound h := sound.step h
  releases _ _ sound hquiet h := sound.dropLock hquiet h
  idles _ _ _ _ _ idle h := idle.step h

end DaemonProcess

end Steps

/-! ## One daemon at a time -/

section Hosts

variable {cfg : Config} {host : RootHost}

/-- A daemon's process on its own is a daemon: its steps are the daemon's, or nothing to it. -/
lemma World.of_solo {t : Root × Option DaemonProcess}
    (reached : Reachable (DaemonProcess.worker cfg).solo anyAction
      (fun t => ∃ host : RootHost, host = .fresh ∧ t = (host.state, none)) t) :
    Reachable (World.step cfg) anyAction (fun w => w = .fresh)
      ⟨t.1, t.2.map DaemonProcess.daemon⟩ := by
  refine reached.simulates (I := fun _ => True) (f := fun t : Root × Option DaemonProcess =>
    World.mk t.1 (t.2.map DaemonProcess.daemon)) (fun _ _ => trivial) (fun _ _ _ _ _ _ => trivial)
    ?_ ?_
  · rintro t ⟨host, rfl, rfl⟩
    rfl
  · rintro ⟨root, process⟩ act ⟨root', process'⟩ - - hstep
    dsimp only
    cases act with
    | start walk =>
        cases process with
        | some p => cases hstep
        | none =>
            simp only [Worker.solo, DaemonProcess.worker, DaemonProcess.start,
              Option.map_eq_some_iff,
              Option.ite_none_right_eq_some, Option.some.injEq, Prod.mk.injEq] at hstep
            obtain ⟨p, ⟨hwalk, rfl⟩, rfl, rfl⟩ := hstep
            refine .inr ⟨.start walk, ?_⟩
            simp only [World.step, Option.map_none, if_pos hwalk, Option.map_some]
    | act act =>
        cases process with
        | none => cases hstep
        | some p =>
            simp only [Worker.solo, DaemonProcess.worker, Option.map_eq_some_iff,
              Prod.mk.injEq] at hstep
            obtain ⟨⟨root'', p'⟩, hstep, rfl, rfl⟩ := hstep
            cases act with
            | daemon act =>
                simp only [DaemonProcess.step, Option.ite_none_right_eq_some,
                  Option.map_eq_some_iff, Prod.mk.injEq] at hstep
                obtain ⟨-, ⟨root₁, d₁⟩, hdaemon, rfl, rfl⟩ := hstep
                refine .inr ⟨.act act, ?_⟩
                simp only [World.step, Option.map_some, Option.bind_some, hdaemon]
            | stopServing finished =>
                simp only [DaemonProcess.step, Option.ite_none_right_eq_some,
                  Option.map_eq_some_iff, Prod.mk.injEq] at hstep
                obtain ⟨-, ⟨root₁, d₁⟩, hdaemon, rfl, rfl⟩ := hstep
                refine .inr ⟨.act .stopLaunching, ?_⟩
                simp only [World.step, Option.map_some, Option.bind_some, hdaemon]
            | joinDispatcher =>
                simp only [DaemonProcess.step, Option.ite_none_right_eq_some, Option.some.injEq,
                  Prod.mk.injEq] at hstep
                obtain ⟨-, rfl, rfl⟩ := hstep
                exact .inl rfl
    | stop =>
        cases process with
        | none => cases hstep
        | some p =>
            simp only [Worker.solo, Option.some.injEq, Prod.mk.injEq] at hstep
            obtain ⟨rfl, rfl⟩ := hstep
            exact .inr ⟨.kill, rfl⟩

/-- **Only the holder of a root's lock writes under the root**, in every run in which a process that
drops the lock has nothing left that could write.  No round is then collected by two processes, and
the processes on a root are to it one daemon at a time. -/
theorem root_written_by_holder
    (reached : Reachable (DaemonProcess.worker cfg).share (QuietRelease DaemonProcess.Quiet)
      (fun host : RootHost => host = .fresh) host) :
    (∀ act host', (DaemonProcess.worker cfg).share host act = some host' →
      host'.state ≠ host.state → ∃ p a, act = .act p a ∧ host.holder = some p) ∧
      (∀ p s q s' a round, host.processes p = some s → host.processes q = some s' →
        s.Collects a round → s'.Collects a round → p = q) ∧
      Reachable (World.step cfg) anyAction (fun w => w = .fresh)
        ⟨host.state, host.current.map DaemonProcess.daemon⟩ := by
  have hinit : ∀ host : RootHost, host = .fresh → ∀ p, host.processes p = none := by
    rintro host rfl p
    rfl
  have inv := Exclusive.of_reachable (DaemonProcess.settles cfg) hinit reached
  refine ⟨?_, ?_, World.of_solo (Exclusive.solo (DaemonProcess.settles cfg) hinit reached)⟩
  · intro act host' hstep hchange
    exact inv.act_of_change (DaemonProcess.settles cfg) hstep hchange
  · -- Whoever collects a round holds the lock.
    have hholds : ∀ p s a round, host.processes p = some s → s.Collects a round →
        host.holder = some p := by
      rintro p s a round hs ⟨token, hany⟩
      obtain ⟨t, ht, hcollecting⟩ := (Option.any_eq_true _ _).mp hany
      rw [Bool.and_eq_true] at hcollecting
      obtain ⟨-, hcollecting⟩ := hcollecting
      by_contra hnot
      have hover := (inv.idle p s hnot hs).rounds token t ht
      cases hphase : t.phase <;> simp [hphase, RoundPhase.isCollecting] at hcollecting
      simp [hphase, RoundPhase.mayWrite] at hover
    intro p s q s' a round hs hs' hcollects hcollects'
    have hsame := (hholds p s a round hs hcollects).symm.trans (hholds q s' a round hs' hcollects')
    exact Option.some.inj hsame

/-- Steps of the daemon of one process. -/
def daemonSteps (pid : ℕ) (acts : List DaemonAction) :
    List (SharedAction ℕ ProcessAction (List JobAddress)) :=
  acts.map fun act => .act pid (.daemon act)

/-- A process takes the root and brings a job's round to its collection. -/
def firstCollects : List (SharedAction ℕ ProcessAction (List JobAddress)) :=
  [.take 0, .start 0 []] ++ daemonSteps 0 (.serve :: (submitting 1 0 ++ dispatching 0 ++
    [.task 0 (.readConfig (.ok ())), .task 0 (.append 1),
      .task 0 (.launchReturns (.ok (.docker "round", roundStream))), .task 0 (.append 2),
      .task 0 .startCollecting]))

/-- It is told to stop, drops the lock, and another process takes the root. -/
def secondTakes : List (SharedAction ℕ ProcessAction (List JobAddress)) :=
  [.act 0 (.stopServing true), .act 0 (.daemon .dispatcherStops), .act 0 .joinDispatcher,
    .release 0, .take 1, .start 1 [jobAddress]]

/-- **The next daemon collects the round beside the one that has dropped the lock**, which goes on
appending to the job's log. -/
theorem round_collected_twice : ∃ host host' : RootHost,
    Reachable (DaemonProcess.worker rootConfig).share anyAction
        (fun host : RootHost => host = .fresh) host ∧
      (DaemonProcess.worker rootConfig).share host (.act 0 (.daemon (.task 0 .collect))) =
        some host' ∧
      host.holder = some 1 ∧
      host'.state.events jobAddress ≠ host.state.events jobAddress ∧
      (∃ s, host.processes 0 = some s ∧ s.Collects jobAddress 1) ∧
      ∃ s, host.processes 1 = some s ∧ s.Collects jobAddress 1 := by
  have hdone : ((exec (DaemonProcess.worker rootConfig).share RootHost.fresh
      (firstCollects ++ secondTakes ++ daemonSteps 1 [.resume 5,
        .task 0 (.reattachReturns (.ok roundStream)), .task 0 .startCollecting])).bind fun host =>
      ((DaemonProcess.worker rootConfig).share host (.act 0 (.daemon (.task 0 .collect)))).bind
        fun host' => (host.processes 0).bind fun s => (host.processes 1).map fun s' =>
          (host.holder, decide (host'.state.events jobAddress = host.state.events jobAddress),
            ((s.daemon.tasks 0).any fun t =>
              decide (t.address = jobAddress ∧ t.round = 1) && t.phase.isCollecting),
            (s'.daemon.tasks 0).any fun t =>
              decide (t.address = jobAddress ∧ t.round = 1) && t.phase.isCollecting)) =
          some (some 1, false, true, true) := by decide +kernel
  obtain ⟨host, hhost, hafter⟩ := Option.bind_eq_some_iff.mp hdone
  obtain ⟨host', hstep, hseen⟩ := Option.bind_eq_some_iff.mp hafter
  obtain ⟨s, hs, hseen⟩ := Option.bind_eq_some_iff.mp hseen
  obtain ⟨s', hs', hseen⟩ := Option.map_eq_some_iff.mp hseen
  simp only [Prod.mk.injEq, decide_eq_false_iff_not] at hseen
  obtain ⟨hholder, hchanged, hfirst, hsecond⟩ := hseen
  exact ⟨host, host', .of_exec rfl hhost, hstep, hholder, hchanged, ⟨s, hs, 0, hfirst⟩,
    s', hs', 0, hsecond⟩

/-- Where the round has ended when the lock is dropped, the next daemon alone writes its job's
log. -/
theorem root_written_by_holder_ended : ∃ host host' : RootHost,
    exec (fun host act => if QuietRelease DaemonProcess.Quiet host act then
        (DaemonProcess.worker rootConfig).share host act else none) RootHost.fresh
      (firstCollects ++ daemonSteps 0 (List.replicate 8 (.task 0 .collect) ++
        [.task 0 (.streamEnds "the round's stream ended")]) ++ secondTakes ++
          daemonSteps 1 (.serve :: (revising 1 5).take 2)) = some host ∧
      (DaemonProcess.worker rootConfig).share host
        (.act 1 (.daemon (.recordRequest repoKey 6 ⟨"main", "c0ffee"⟩ none))) = some host' ∧
      (host.processes 0).isSome ∧ host'.state ≠ host.state ∧ host.holder = some 1 := by
  have hdone : ((exec (fun host act => if QuietRelease DaemonProcess.Quiet host act then
        (DaemonProcess.worker rootConfig).share host act else none) RootHost.fresh
      (firstCollects ++ daemonSteps 0 (List.replicate 8 (.task 0 .collect) ++
        [.task 0 (.streamEnds "the round's stream ended")]) ++ secondTakes ++
          daemonSteps 1 (.serve :: (revising 1 5).take 2))).bind fun host =>
      ((DaemonProcess.worker rootConfig).share host
        (.act 1 (.daemon (.recordRequest repoKey 6 ⟨"main", "c0ffee"⟩ none)))).map fun host' =>
          ((host.processes 0).isSome,
            decide (host'.state.events jobAddress = host.state.events jobAddress))) =
          some (true, false) := by decide +kernel
  obtain ⟨host, hhost, hafter⟩ := Option.bind_eq_some_iff.mp hdone
  obtain ⟨host', hstep, hseen⟩ := Option.map_eq_some_iff.mp hafter
  simp only [Prod.mk.injEq, decide_eq_false_iff_not] at hseen
  obtain ⟨halive, hchanged⟩ := hseen
  have hstate : host'.state ≠ host.state := by
    intro hsame
    exact hchanged (by rw [hsame])
  obtain ⟨hwriter, -, -⟩ := root_written_by_holder (.of_guarded_exec rfl hhost)
  obtain ⟨p, a, hact, hholder⟩ := hwriter _ host' hstep hstate
  obtain ⟨rfl, -⟩ := SharedAction.act.inj hact
  exact ⟨host, host', hhost, hstep, halive, hstate, hholder⟩

end Hosts

end AssemblyLine
