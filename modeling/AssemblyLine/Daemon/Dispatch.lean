import AssemblyLine.Daemon.Fleet
import AssemblyLine.Round.Stream
import AssemblyLine.Run.Config

/-!
# The queue and the cap

`JobQueue` is what the daemon's parties share: the jobs in line, the counts of rounds running and
launching, the stop signal and the cancel table.  What `cancel` and `registerIfStillQueued`
decide under the table's lock is here, and what a round's task does from its registration to its
end: `RoundPhase` has one value for each point at which another party can act.

A `CancellationToken` is named by a number, its round's task by the same one.
-/

namespace AssemblyLine

/-! ## Addresses -/

/-- A repository's place under the state root. -/
structure RepoKey where
  segments : List String
deriving DecidableEq, Repr

/-- Where this repository's jobs live under `root`. -/
def RepoKey.jobsDir (key : RepoKey) (root : PathBuf) : PathBuf := root ++ "jobs" :: key.segments

/-- Where one job's state lives. -/
structure JobAddress where
  key : RepoKey
  jobsDir : PathBuf
  id : ℕ
deriving DecidableEq, Repr

/-- The job's directory. -/
def JobAddress.dir (a : JobAddress) : PathBuf := a.jobsDir ++ [toString a.id]

/-- Why a job cancelled before its round started has failed. -/
def cancelledBeforeItStarted : String := "cancelled before it started"

/-! ## The cancel table -/

/-- A cancellation token, and the task of the round it cancels. -/
abbrev Token := ℕ

structure LaunchedRound where
  round : ℕ
  cancel : Token
deriving DecidableEq, Repr

/-- Whether this is the round `report` is waiting on — not yet started, or running — rather than
one past its verdict. -/
def LaunchedRound.isAwaitedBy (launched : LaunchedRound) (report : JobReport) : Bool :=
  match report.state with
  | .queued => report.rounds + 1 = launched.round
  | .running => report.rounds = launched.round
  | .pending => false
  | .passed => false
  | .failed => false

/-- Each launched round, until its task is over. -/
abbrev CancelTable := JobAddress → Option LaunchedRound

/-- Jobs waiting for a slot, how many rounds are running now, and a way to stop launching more.
The counts are integers, so that a count taken back too often would be seen to be negative. -/
structure JobQueue where
  pending : List JobAddress
  running : ℤ
  /-- Dispatched rounds that have yet to be recorded as launched, or to end without launching. -/
  launching : ℤ
  stopping : Bool
  cancels : CancelTable

namespace JobQueue

def new : JobQueue := ⟨[], 0, 0, false, fun _ => none⟩

/-- What `cancel` does about a job. -/
inductive Cancelling
  /-- Fire the round's token; the job was running. -/
  | fires (token : Token)
  /-- Close the job before it starts; it was queued. -/
  | closes
  | refuses (because : String)
deriving DecidableEq, Repr

/-- Stop `address`'s job: cancel the round it is waiting on, or close it before it starts if it
is still waiting for a slot. -/
def cancel (queue : JobQueue) (address : JobAddress) (exists_ : Bool) (report : JobReport) :
    Cancelling :=
  if exists_ then
    match (queue.cancels address).filter fun launched => launched.isAwaitedBy report with
    | some launched => .fires launched.cancel
    | none =>
      match report.state with
      | .queued => .closes
      | .pending | .running | .passed | .failed =>
        .refuses s!"job {address.id} is not queued or running, so there is nothing to cancel"
  else .refuses s!"no such job: {address.id}"

/-- Whether the round `report` waits on was launched from an earlier place in line. -/
def alreadyLaunched (queue : JobQueue) (address : JobAddress) (report : JobReport) : Bool :=
  (queue.cancels address).any fun launched => launched.isAwaitedBy report

/-- Enter a round in the cancel table. -/
def register (queue : JobQueue) (address : JobAddress) (round : ℕ) (cancel : Token) : JobQueue :=
  { queue with cancels := Function.update queue.cancels address (some ⟨round, cancel⟩) }

/-- Enter `address`'s next round in the cancel table, unless its job is no longer queued or that
round was already launched. -/
def registerIfStillQueued (queue : JobQueue) (address : JobAddress) (report : JobReport)
    (cancel : Token) : Option JobQueue :=
  if report.state = .queued ∧ queue.alreadyLaunched address report = false then
    some (queue.register address (report.rounds + 1) cancel)
  else none

/-- Put a job in line behind every job already waiting. -/
def enqueue (queue : JobQueue) (address : JobAddress) : JobQueue :=
  { queue with pending := queue.pending ++ [address] }

def stopLaunching (queue : JobQueue) : JobQueue := { queue with stopping := true }

/-- What `launches_settled` waits for. -/
def LaunchesSettled (queue : JobQueue) : Prop := queue.launching = 0

/-- Take a registration's entry out, unless a later round of the job has taken its place. -/
def deregister (queue : JobQueue) (address : JobAddress) (round : ℕ) : JobQueue :=
  if (queue.cancels address).any fun launched => launched.round = round then
    { queue with cancels := Function.update queue.cancels address none }
  else queue

def takeSlot (queue : JobQueue) : JobQueue := { queue with running := queue.running + 1 }

def dropSlot (queue : JobQueue) : JobQueue := { queue with running := queue.running - 1 }

def countLaunching (queue : JobQueue) : JobQueue := { queue with launching := queue.launching + 1 }

def dropLaunching (queue : JobQueue) : JobQueue := { queue with launching := queue.launching - 1 }

section Fields

variable (queue : JobQueue) (address : JobAddress) (round : ℕ)

@[simp] lemma dropSlot_running : queue.dropSlot.running = queue.running - 1 := rfl
@[simp] lemma dropSlot_launching : queue.dropSlot.launching = queue.launching := rfl
@[simp] lemma dropLaunching_running : queue.dropLaunching.running = queue.running := rfl
@[simp] lemma dropLaunching_launching : queue.dropLaunching.launching = queue.launching - 1 := rfl

/-- Taking an entry out of the table leaves the line, the counts and the stop signal. -/
lemma deregister_frame : (queue.deregister address round).pending = queue.pending ∧
    (queue.deregister address round).running = queue.running ∧
    (queue.deregister address round).launching = queue.launching ∧
    (queue.deregister address round).stopping = queue.stopping := by
  unfold deregister
  split <;> exact ⟨rfl, rfl, rfl, rfl⟩

end Fields

end JobQueue

/-! ## A round's task -/

/-- The request a round is launched from. -/
structure RoundRequest where
  remoteUrl : String
  base : PinnedRef
  prompt : String
  provider : String
deriving DecidableEq, Repr

/-- The request a job's report records, when it records one. -/
def JobReport.request (report : JobReport) : Option RoundRequest :=
  match report.remoteUrl, report.base, report.latestPrompt, report.provider with
  | some remoteUrl, some base, some prompt, some provider =>
      some ⟨remoteUrl, base, prompt, provider⟩
  | _, _, _, _ => none

/-- Where a round's task is in the lifecycle of its job. -/
inductive Stage
  /-- Registered, and `RoundStarted` is still to come. -/
  | waiting
  | started
  | launched
  /-- Past its last lifecycle event. -/
  | over
deriving DecidableEq, Repr

/-- The points of a round's task at which another party can act. -/
inductive RoundPhase
  /-- In the dispatcher's hands: registered, and not spawned yet. -/
  | registered
  /-- About to read the job's request. -/
  | reading
  /-- Waiting for the repository's config, a cancel or the stop. -/
  | configuring (request : RoundRequest)
  /-- About to record that the round starts; then comes its launch, or why there is none. -/
  | starting (request : RoundRequest) (config : Except String Unit)
  /-- The runner is launching the round. -/
  | launching (request : RoundRequest)
  /-- About to record that the round is launched. -/
  | recording (handle : RoundHandle) (stream : RoundStream)
  /-- The runner is looking for a round an earlier daemon launched. -/
  | reattaching (handle : RoundHandle)
  /-- About to collect. -/
  | opening (stream : RoundStream)
  | collecting (collection : RoundCollection)
  /-- About to record why the round has failed. -/
  | failing (stage : Stage) (reason : String)
  /-- The task has nothing left to do but to drop what it holds. -/
  | returned
  /-- Its entry in the cancel table is taken out; its slot is not given back yet. -/
  | deregistered

namespace RoundPhase

def stage : RoundPhase → Stage
  | .registered => .waiting
  | .reading => .waiting
  | .configuring _ => .waiting
  | .starting _ _ => .waiting
  | .launching _ => .started
  | .recording _ _ => .started
  | .reattaching _ => .launched
  | .opening _ => .launched
  | .collecting c => if c.judged then .over else .launched
  | .failing stage _ => stage
  | .returned => .over
  | .deregistered => .over

/-- Whether the task's entry is still its own to take out of the cancel table. -/
def isRegistered : RoundPhase → Bool
  | .deregistered => false
  | _ => true

/-- Whether the task is spawned, and so holds a slot under the cap. -/
def isLive : RoundPhase → Bool
  | .registered => false
  | _ => true

/-- The lifecycle event a phase is about to append, and the phase after it. -/
def due (round : ℕ) : RoundPhase → Option (EventKind × RoundPhase)
  | .starting request (.ok ()) => some (.roundStarted round, .launching request)
  | .starting _ (.error e) =>
    some (.roundStarted round,
      .failing .started s!"reading {repoConfigPath} at the job's base: {e}")
  | .recording handle stream => some (.roundLaunched handle, .opening stream)
  | .failing _ reason => some (.roundFailed reason, .returned)
  | _ => none

/-- What is left once a round's stream has ended: a verdict to record, if the round reported
none. -/
def afterStream (c : RoundCollection) (endedBecause : String) : RoundPhase :=
  match c.settled endedBecause with
  | some (.roundFailed reason) => .failing .launched reason
  | _ => .returned

end RoundPhase

/-- Why a round the daemon gave up launching as it stopped has failed. -/
def stoppedWhileLaunching (job : ℕ) : String :=
  "the daemon stopped while this round was launching, so it was not started — " ++
    s!"`submit --job {job}` to try again"

/-- A registered round and its task.  `asked` counts the requests in the job's log when the round
was registered; nothing in the code reads it. -/
structure RoundTask where
  address : JobAddress
  round : ℕ
  asked : ℕ
  /-- Whether it still holds its place in the count of launching rounds. -/
  launching : Bool
  phase : RoundPhase

end AssemblyLine
