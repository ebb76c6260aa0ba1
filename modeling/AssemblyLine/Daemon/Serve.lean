import AssemblyLine.Daemon.Dispatch
import AssemblyLine.Framework.Machine

/-!
# A daemon at work on its root

`Root` is what is on disk and outlives daemons; `Daemon` is one process: what it still owes the
jobs it found, its queue, its dispatcher, the rounds' tasks and the submits it is taking.
`Daemon.step` is one step of any of these parties.  A step is at most one log append, one critical
section under the cancel table's lock, or one send or receive, so an interleaving of the parties
is a run of `Daemon.step`.

What is outside the code decides which action is taken: whether a fetch or a launch succeeds, what
a stream holds, when a client cancels.  A future that is polled after another may win although the
other one became ready in between, so a guard asks of the token that was polled first only that
it fired where the code then takes that branch.
-/

namespace AssemblyLine

/-! ## The root -/

/-- A daemon's root, as it is on disk. -/
structure Root where
  /-- The job directories. -/
  jobDirs : List JobAddress
  /-- Each job's `events.jsonl`. -/
  events : JobAddress → List Event
  /-- Each job's `job.log`. -/
  output : JobAddress → List String
  /-- Each round's position file. -/
  position : JobAddress → ℕ → Option ℕ

namespace Root

def empty : Root := ⟨[], fun _ => [], fun _ => [], fun _ _ => none⟩

def report (root : Root) (a : JobAddress) : JobReport := .fromEvents a.id (root.events a)

/-- Append one event to a job's log. -/
def append (root : Root) (a : JobAddress) (now : Instant) (kind : EventKind) : Root :=
  { root with events := Function.update root.events a (root.events a ++ [⟨now, kind⟩]) }

/-- `create_job`. -/
def createJob (root : Root) (a : JobAddress) : Root := { root with jobDirs := root.jobDirs ++ [a] }

/-- What collecting round `round` of a job reads and writes. -/
def roundDisk (root : Root) (a : JobAddress) (round : ℕ) : RoundDisk :=
  ⟨root.events a, root.output a, root.position a round⟩

def writeRound (root : Root) (a : JobAddress) (round : ℕ) (d : RoundDisk) : Root :=
  { root with
    events := Function.update root.events a d.events
    output := Function.update root.output a d.output
    position := Function.update root.position a
      (Function.update (root.position a) round d.position) }

/-- No other job's directory above this one's holds a log. -/
def Outermost (root : Root) (a : JobAddress) : Prop :=
  ∀ b ∈ root.jobDirs, root.events b ≠ [] → b.dir <+: a.dir → b = a

instance (root : Root) (a : JobAddress) : Decidable (root.Outermost a) :=
  inferInstanceAs (Decidable (∀ b ∈ root.jobDirs, _))

/-- The directories a walk finds, which does not look below one that holds a log. -/
def jobDirsBelow (root : Root) : List JobAddress :=
  root.jobDirs.filter fun a => root.events a ≠ [] ∧ root.Outermost a

lemma mem_jobDirsBelow {root : Root} {a : JobAddress} : a ∈ root.jobDirsBelow ↔
    a ∈ root.jobDirs ∧ root.events a ≠ [] ∧ root.Outermost a := by
  simp only [jobDirsBelow, List.mem_filter, decide_eq_true_eq]

/-- The walk finds every job whose report is of this kind. -/
def FindsEvery (root : Root) (kind : JobReport → Prop) : Prop :=
  ∀ a ∈ root.jobDirs, kind (root.report a) → root.Outermost a

instance (root : Root) (kind : JobReport → Prop) [DecidablePred kind] :
    Decidable (root.FindsEvery kind) :=
  inferInstanceAs (Decidable (∀ a ∈ root.jobDirs, _))

/-- A walk of the job directories: the jobs whose logs name a remote, with their reports. -/
def jobsUnder (root : Root) (walk : List JobAddress) : List (JobAddress × JobReport) :=
  (walk.map fun a => (a, root.report a)).filter fun job => job.2.remoteUrl.isSome

end Root

/-! ## Submits -/

/-- What a submit asks for. -/
structure Submission where
  remoteUrl : String
  prompt : String
  /-- The job to continue; a new one when there is none. -/
  job : Option ℕ
  provider : Option String
deriving DecidableEq, Repr

/-- Where a submit is that holds its repository's lock. -/
inductive Submit
  | holding (submission : Submission)
  /-- The job it continues is idle; its provider is the job's own. -/
  | continued (submission : Submission) (id : ℕ) (provider : String)
  /-- The directory of its new job is made. -/
  | created (submission : Submission) (id : ℕ)
  /-- Its request is in the log, and its job is about to be put in line. -/
  | recorded (id : ℕ)
deriving DecidableEq, Repr

/-- The provider of the job a revise continues, once the job is known to exist, to be idle and to
have a request, or why it cannot be continued. -/
def continuedJob (id : ℕ) (exists_ : Bool) (report : JobReport) : Except String String :=
  if exists_ then
    match report.state with
    | .queued | .running =>
      .error s!"job {id} is already queued or running — wait for its verdict before revising it"
    | .pending | .passed | .failed =>
      match report.base, report.provider with
      | some _, some provider => .ok provider
      | _, _ =>
        .error (s!"job {id} has no recorded request — its first round never started, so there " ++
          "is nothing to revise")
  else .error s!"no such job: {id}"

/-! ## The daemon -/

/-- What is left of giving every job under the root what it is owed. -/
inductive Startup
  /-- The rounds to reattach to and those lost while launching, then the jobs to requeue. -/
  | resuming (others : List (JobAddress × Resumption)) (requeued : List JobAddress)
  | serving

/-- The dispatcher's loop, between two steps. -/
inductive Dispatcher
  | receiving
  /-- Waiting for a slot for this job. -/
  | waiting (a : JobAddress)
  /-- A slot is free; about to see whether the job is still queued. -/
  | looking (a : JobAddress)
  /-- The job's round is registered; about to count it as launching. -/
  | registered (token : Token)
  /-- About to spawn the round's task. -/
  | counted (token : Token)
  | returned
deriving DecidableEq, Repr

/-- A daemon process. -/
structure Daemon where
  startup : Startup
  queue : JobQueue
  dispatcher : Dispatcher
  /-- Each round's task, by its token, from its registration until its slot is given back. -/
  tasks : Token → Option RoundTask
  fired : Token → Bool
  nextToken : Token
  /-- The submit that holds each repository's lock. -/
  submits : RepoKey → Option Submit
  /-- How many rounds the daemon reattached to; nothing in the code reads it. -/
  reattached : ℕ

/-- A daemon's root directory and cap. -/
structure Config where
  root : PathBuf
  maxJobs : ℕ
deriving DecidableEq, Repr

/-- The address of a repository's job. -/
def Config.address (cfg : Config) (key : RepoKey) (id : ℕ) : JobAddress :=
  ⟨key, key.jobsDir cfg.root, id⟩

namespace Daemon

/-- The order of `Option<DateTime>`: nothing comes before everything. -/
def askedBefore : Option Instant → Option Instant → Bool
  | none, _ => true
  | some _, none => false
  | some s, some t => s ≤ t

/-- The jobs under the root that are owed something, and what. -/
def owedUnder (root : Root) (walk : List JobAddress) :
    List (JobAddress × JobReport × Resumption) :=
  (root.jobsUnder walk).filterMap fun job =>
    (Resumption.forReport job.2).map fun owed => (job.1, job.2, owed)

/-- The jobs owed a place in line, in the order they were asked for. -/
def requeueOrder (requeued : List (JobAddress × JobReport × Resumption)) : List JobAddress :=
  (requeued.mergeSort fun x y => askedBefore x.2.1.requestedAt y.2.1.requestedAt).map Prod.fst

/-- A daemon that has just read every job under its root, in the order of `walk`. -/
def started (root : Root) (walk : List JobAddress) : Daemon where
  startup :=
    .resuming
      (((owedUnder root walk).filter fun job => job.2.2 ≠ .requeue).map fun job => (job.1, job.2.2))
      (requeueOrder ((owedUnder root walk).filter fun job => job.2.2 = .requeue))
  queue := .new
  dispatcher := .receiving
  tasks _ := none
  fired _ := false
  nextToken := 0
  submits _ := none
  reattached := 0

end Daemon

/-! ## Steps -/

/-- One step of a round's task. -/
inductive TaskAction
  | readRequest
  | seeCancelled
  | seeStopping
  | readConfig (config : Except String Unit)
  /-- Append the lifecycle event that is due. -/
  | append (now : Instant)
  | launchReturns (launched : Except String (RoundHandle × RoundStream))
  | reattachReturns (running : Except String RoundStream)
  | startCollecting
  /-- Read a line and append what it routes to, or rewrite the position file. -/
  | collect
  | cancelRound
  | streamEnds (endedBecause : String)
  | dropLaunching
  | dropRegistration
  | dropSlot

/-- One step of a daemon. -/
inductive DaemonAction
  /-- Give the next job that is not requeued what it is owed. -/
  | resume (now : Instant)
  | requeue
  | serve
  /-- A submit takes its repository's lock. -/
  | hold (key : RepoKey) (submission : Submission)
  | continueJob (key : RepoKey)
  | createJob (key : RepoKey) (id : ℕ)
  | recordRequest (key : RepoKey) (now : Instant) (base : PinnedRef) (configured : Option String)
  | enqueue (key : RepoKey)
  /-- A submit is refused, or its client has gone. -/
  | refuse (key : RepoKey)
  | cancel (a : JobAddress) (now : Instant)
  | stopLaunching
  | receive
  | slotFree
  | look
  | countLaunching
  | spawn
  /-- The dispatcher returns. -/
  | dispatcherStops
  | task (token : Token) (act : TaskAction)

namespace Daemon

variable (cfg : Config)

/-- Put a changed task back. -/
def setTask (d : Daemon) (token : Token) (t : RoundTask) : Daemon :=
  { d with tasks := Function.update d.tasks token (some t) }

@[simp] lemma setTask_queue (d : Daemon) (token : Token) (t : RoundTask) :
    (d.setTask token t).queue = d.queue := rfl

/-- Enter a registered round, whose token is the next one. -/
def addTask (d : Daemon) (queue : JobQueue) (t : RoundTask) : Daemon :=
  { d with
    queue
    tasks := Function.update d.tasks d.nextToken (some t)
    nextToken := d.nextToken + 1 }

def setSubmit (d : Daemon) (key : RepoKey) (submit : Option Submit) : Daemon :=
  { d with submits := Function.update d.submits key submit }

lemma setSubmit_submits (d : Daemon) (key : RepoKey) (submit : Option Submit) :
    (d.setSubmit key submit).submits = Function.update d.submits key submit := rfl

/-- `resume_jobs_under_root`, one job at a time, and then the requeued jobs in order. -/
def startupStep (root : Root) (d : Daemon) : DaemonAction → Option (Root × Daemon)
  | .resume now =>
    match d.startup with
    | .resuming ((a, .reattach round handle) :: others) requeued =>
      some (root,
        { d.addTask (d.queue.register a round d.nextToken).takeSlot
            ⟨a, round, requestsIn (root.events a), false, .reattaching handle⟩ with
          startup := .resuming others requeued
          reattached := d.reattached + 1 })
    | .resuming ((a, .lostWhileLaunching _) :: others) requeued =>
      some (root.append a now (.roundFailed (lostWhileLaunching a.id)),
        { d with startup := .resuming others requeued })
    | .resuming ((_, .requeue) :: others) requeued =>
      some (root, { d with startup := .resuming others requeued })
    | _ => none
  | .requeue =>
    match d.startup with
    | .resuming [] (a :: requeued) =>
      some (root, { d with queue := d.queue.enqueue a, startup := .resuming [] requeued })
    | _ => none
  | .serve =>
    match d.startup with
    | .resuming [] [] => some (root, { d with startup := .serving })
    | _ => none
  | _ => none

/-- `accept`, from taking the repository's lock to giving it back. -/
def submitStep (root : Root) (d : Daemon) : DaemonAction → Option (Root × Daemon)
  | .hold key submission =>
    match d.submits key with
    | none => some (root, d.setSubmit key (some (.holding submission)))
    | some _ => none
  | .continueJob key =>
    match d.submits key with
    | some (.holding submission) =>
      match submission.job with
      | some id =>
        let a := cfg.address key id
        match continuedJob id (a ∈ root.jobDirs) (root.report a) with
        | .ok provider =>
          some (root, d.setSubmit key (some (.continued submission id provider)))
        | .error _ => none
      | none => none
    | _ => none
  | .createJob key id =>
    match d.submits key with
    | some (.holding submission) =>
      if submission.job = none ∧ cfg.address key id ∉ root.jobDirs then
        some (root.createJob (cfg.address key id),
          d.setSubmit key (some (.created submission id)))
      else none
    | _ => none
  | .recordRequest key now base configured =>
    match d.submits key with
    | some (.continued submission id provider) =>
      some (root.append (cfg.address key id) now
          (.roundRequested submission.remoteUrl base submission.prompt provider),
        d.setSubmit key (some (.recorded id)))
    | some (.created submission id) =>
      some (root.append (cfg.address key id) now
          (.roundRequested submission.remoteUrl base submission.prompt
            ((submission.provider.or configured).getD "")),
        d.setSubmit key (some (.recorded id)))
    | _ => none
  | .enqueue key =>
    match d.submits key with
    | some (.recorded id) =>
      some (root,
        { d.setSubmit key none with queue := d.queue.enqueue (cfg.address key id) })
    | _ => none
  | .refuse key =>
    match d.submits key with
    | some (.holding _) => some (root, d.setSubmit key none)
    | some (.continued _ _ _) => some (root, d.setSubmit key none)
    | _ => none
  | _ => none

/-- `JobQueue::cancel` and `stop_launching`. -/
def controlStep (root : Root) (d : Daemon) : DaemonAction → Option (Root × Daemon)
  | .cancel a now =>
    match d.queue.cancel a (a ∈ root.jobDirs) (root.report a) with
    | .fires token => some (root, { d with fired := Function.update d.fired token true })
    | .closes => some (root.append a now (.roundFailed cancelledBeforeItStarted), d)
    | .refuses _ => some (root, d)
  | .stopLaunching => some (root, { d with queue := d.queue.stopLaunching })
  | _ => none

/-- `dispatch_until_stopped`. -/
def dispatcherStep (root : Root) (d : Daemon) : DaemonAction → Option (Root × Daemon)
  | .receive =>
    match d.dispatcher, d.queue.pending with
    | .receiving, a :: pending =>
      some (root, { d with dispatcher := .waiting a, queue := { d.queue with pending } })
    | _, _ => none
  | .slotFree =>
    match d.dispatcher with
    | .waiting a =>
      if d.queue.running < cfg.maxJobs then some (root, { d with dispatcher := .looking a })
      else none
    | _ => none
  | .look =>
    match d.dispatcher with
    | .looking a =>
      match d.queue.registerIfStillQueued a (root.report a) d.nextToken with
      | some queue =>
        some (root,
          { d.addTask queue
              ⟨a, (root.report a).rounds + 1, requestsIn (root.events a), false, .registered⟩ with
            dispatcher := .registered d.nextToken })
      | none => some (root, { d with dispatcher := .receiving })
    | _ => none
  | .countLaunching =>
    match d.dispatcher with
    | .registered token =>
      (d.tasks token).map fun t =>
        (root, { d.setTask token { t with launching := true } with
          dispatcher := .counted token, queue := d.queue.countLaunching })
    | _ => none
  | .spawn =>
    match d.dispatcher with
    | .counted token =>
      (d.tasks token).map fun t =>
        (root, { d.setTask token { t with phase := .reading } with
          dispatcher := .receiving, queue := d.queue.takeSlot })
    | _ => none
  | .dispatcherStops =>
    match d.dispatcher with
    | .receiving =>
      if d.queue.stopping then some (root, { d with dispatcher := .returned }) else none
    | .waiting _ =>
      if d.queue.stopping then some (root, { d with dispatcher := .returned }) else none
    | _ => none
  | _ => none

/-- `run_queued_round`, `reattach_round` and `collect`, and the drops that end the task. -/
def taskStep (root : Root) (d : Daemon) (token : Token) (t : RoundTask) :
    TaskAction → Option (Root × Daemon)
  | .readRequest =>
    match t.phase with
    | .reading =>
      match (root.report t.address).request with
      | some request => some (root, d.setTask token { t with phase := .configuring request })
      | none => some (root, d.setTask token { t with phase := .returned })
    | _ => none
  | .seeCancelled =>
    match t.phase with
    | .configuring _ =>
      if d.fired token then
        some (root, d.setTask token { t with phase := .failing .waiting cancelledBeforeItStarted })
      else none
    | _ => none
  | .seeStopping =>
    match t.phase with
    | .configuring _ =>
      if d.queue.stopping then some (root, d.setTask token { t with phase := .returned }) else none
    | _ => none
  | .readConfig config =>
    match t.phase with
    | .configuring request =>
      some (root, d.setTask token { t with phase := .starting request config })
    | _ => none
  | .append now =>
    (t.phase.due t.round).map fun due =>
      (root.append t.address now due.1, d.setTask token { t with phase := due.2 })
  | .launchReturns launched =>
    match t.phase with
    | .launching _ =>
      match launched with
      | .ok (handle, stream) =>
        some (root, d.setTask token { t with phase := .recording handle stream })
      | .error e =>
        let reason :=
          if d.queue.stopping then stoppedWhileLaunching t.address.id
          else s!"the runner could not start the round: {e}"
        some (root, d.setTask token { t with phase := .failing .started reason })
    | _ => none
  | .reattachReturns running =>
    match t.phase with
    | .reattaching _ =>
      match running with
      | .ok stream => some (root, d.setTask token { t with phase := .opening stream })
      | .error e =>
        some (root, d.setTask token { t with
          phase := .failing .launched s!"could not find the round again after a restart: {e}" })
    | _ => none
  | .startCollecting =>
    match t.phase with
    | .opening stream =>
      let phase := .collecting (.start (root.roundDisk t.address t.round) stream)
      if t.launching then
        some (root, { d.setTask token { t with launching := false, phase } with
          queue := d.queue.dropLaunching })
      else some (root, d.setTask token { t with phase })
    | _ => none
  | .collect =>
    match t.phase with
    | .collecting c =>
      (c.next (root.roundDisk t.address t.round)).map fun (c, disk) =>
        (root.writeRound t.address t.round disk, d.setTask token { t with phase := .collecting c })
    | _ => none
  | .cancelRound =>
    match t.phase with
    | .collecting c =>
      if d.fired token then
        c.cancel.map fun c => (root, d.setTask token { t with phase := .collecting c })
      else none
    | _ => none
  | .streamEnds endedBecause =>
    match t.phase with
    | .collecting c =>
      if (c.next (root.roundDisk t.address t.round)).isNone then
        some (root, d.setTask token { t with phase := .afterStream c endedBecause })
      else none
    | _ => none
  | .dropLaunching =>
    match t.phase with
    | .returned =>
      if t.launching then
        some (root, { d.setTask token { t with launching := false } with
          queue := d.queue.dropLaunching })
      else none
    | _ => none
  | .dropRegistration =>
    match t.phase with
    | .returned =>
      if t.launching then none
      else some (root, { d.setTask token { t with phase := .deregistered } with
        queue := d.queue.deregister t.address t.round })
    | _ => none
  | .dropSlot =>
    match t.phase with
    | .deregistered =>
      some (root, { d with
        tasks := Function.update d.tasks token none, queue := d.queue.dropSlot })
    | _ => none

/-- Whether the daemon is past its startup: it takes submits and cancels, and its dispatcher
runs. -/
def isServing (d : Daemon) : Bool :=
  match d.startup with
  | .serving => true
  | .resuming _ _ => false

/-- One step of a daemon on its root. -/
def step (s : Root × Daemon) (act : DaemonAction) : Option (Root × Daemon) :=
  match act with
  | .task token act => (s.2.tasks token).bind fun t => taskStep s.1 s.2 token t act
  | .resume _ | .requeue | .serve => startupStep s.1 s.2 act
  | .hold _ _ | .continueJob _ | .createJob _ _ | .recordRequest _ _ _ _ | .enqueue _ | .refuse _ =>
    if s.2.isServing then submitStep cfg s.1 s.2 act else none
  | .cancel _ _ | .stopLaunching => if s.2.isServing then controlStep s.1 s.2 act else none
  | .receive | .slotFree | .look | .countLaunching | .spawn | .dispatcherStops =>
    if s.2.isServing then dispatcherStep cfg s.1 s.2 act else none

end Daemon

/-! ## Kills and restarts -/

/-- A root, and the daemon running on it, if one is. -/
structure World where
  root : Root
  daemon : Option Daemon

inductive WorldAction
  /-- A daemon starts, and reads the job directories it finds in the order of `walk`. -/
  | start (walk : List JobAddress)
  | kill
  | act (act : DaemonAction)

namespace World

/-- A root no daemon has run on. -/
def fresh : World := ⟨.empty, none⟩

def step (cfg : Config) (w : World) : WorldAction → Option World
  | .start walk =>
    match w.daemon with
    | none =>
      if walk.Perm w.root.jobDirsBelow then some ⟨w.root, some (.started w.root walk)⟩ else none
    | some _ => none
  | .kill => w.daemon.map fun _ => ⟨w.root, none⟩
  | .act act => w.daemon.bind fun d => (Daemon.step cfg (w.root, d) act).map fun s =>
      ⟨s.1, some s.2⟩

end World

/-- The steps in which a daemon that starts finds every job whose report is of this kind. -/
def FindsAtStart (kind : JobReport → Prop) (w : World) : WorldAction → Prop
  | .start _ => w.root.FindsEvery kind
  | .kill | .act _ => True

instance (kind : JobReport → Prop) [DecidablePred kind] (w : World) (act : WorldAction) :
    Decidable (FindsAtStart kind w act) :=
  match act with
  | .start _ => inferInstanceAs (Decidable (w.root.FindsEvery kind))
  | .kill | .act _ => .isTrue trivial

end AssemblyLine
