import AssemblyLine.Framework.Calls
import AssemblyLine.Round.Outcome

/-!
# A round in its clone, call by call

What `ReadyJob::run` asks of `git`, of the commands it runs, of `gh` and of its frame writer, in the
order it asks.  `ReadyJob.run` is a function of what every stage comes to; `ReadyJob.runInClone` is
the program itself, which waits for one answer before it makes the next call and can be cut off
between two.

`runInClone_concludes` connects the two: a run that concludes, however it was answered, has appended
and concluded what `ReadyJob.run` makes of some world.  `RunAnswered` ties that world to the
answers: what a stage comes to there is what its program returns by some of them in a row.
-/

namespace AssemblyLine

/-! ## Calls -/

/-- What a round calls on. -/
inductive RoundCall
  /-- Run `git` in the clone. -/
  | git (args : List String)
  /-- Run `gh` in the clone. -/
  | gh (args : List String)
  /-- `exec::run_command` in the clone, for so many nanoseconds at most. -/
  | runCommand (spec : CommandSpec) (limit : Option ℕ)
  /-- `exec::run_shell` in the clone. -/
  | runShell (command : String) (limit : Option ℕ)
  /-- What is left of the budget that cloning and provisioning share. -/
  | remaining
  | sleep (milliseconds : ℕ)
  /-- Append a frame, stamped now. -/
  | append (said : Appended)
  /-- The events that the writer has sent. -/
  | eventsSoFar
  /-- `workspace::discard`. -/
  | discard
deriving DecidableEq, Repr

/-- What a call is answered with. -/
@[reducible] def RoundCall.Answer : RoundCall → Type
  | .git _ => GitAnswer
  | .gh _ => Except String GhOutput
  | .runCommand _ _ => Except String ShellOutcome
  | .runShell _ _ => Except String ShellOutcome
  | .remaining => ℕ
  | .sleep _ => Unit
  | .append _ => Except String Unit
  | .eventsSoFar => List Event
  | .discard => Except String Unit

/-- The answers that a round has been given, in turn. -/
abbrev RoundAnswers : Type := List (Σ c, RoundCall.Answer c)

/-- A program that a round runs. -/
abbrev RoundCalls (α : Type) : Type := Calls RoundCall RoundCall.Answer Unit α

/-- A round's workspace: the branch that is checked out, and the commit it was checked out at. -/
structure RoundWorkspace where
  branch : String
  startedAt : String
deriving DecidableEq, Repr

namespace InClone

/-! ## git -/

def runExpectingSuccess (args : List String) (operation : String) :
    RoundCalls (Except String String) :=
  .call (.git args) () fun (answer : GitAnswer) => .done (answer.expectingSuccess operation)

def headSha : RoundCalls (Except String String) :=
  runExpectingSuccess ["rev-parse", "HEAD"] "rev-parse HEAD"

/-- Create a branch and check it out. -/
def checkOutNewBranch (branch startAt : String) : RoundCalls (Except String Unit) :=
  (runExpectingSuccess ["checkout", "--quiet", "-b", branch, startAt]
    s!"checkout -b {branch}").tryBind fun _ => .done (.ok ())

/-- Make every commit in the clone carry assembly-line's identity. -/
def commitAsAssemblyLine : RoundCalls (Except String Unit) :=
  (runExpectingSuccess ["config", "user.name", "assembly-line"] "config").tryBind fun _ =>
    (runExpectingSuccess ["config", "user.email", "assembly-line@localhost"] "config").tryBind
      fun _ => .done (.ok ())

/-- The arguments of a push of whatever is checked out.  It runs no hooks. -/
def pushArgs (remote branch : String) : List String :=
  ["-c", "core.hooksPath=/dev/null", "push", remote, s!"HEAD:refs/heads/{branch}"]

/-- Publish whatever the clone has checked out as a branch on the remote. -/
def pushHeadAs (remote branch : String) : RoundCalls (Except String Unit) :=
  (runExpectingSuccess (pushArgs remote branch) s!"push {remote} {branch}").tryBind fun _ =>
    .done (.ok ())

/-- Whether nothing is staged that `HEAD` does not have. -/
def nothingStaged : RoundCalls (Except String Bool) :=
  .call (.git ["diff", "--cached", "--quiet"]) () fun (answer : GitAnswer) =>
    .done (answer.map fun out => out.exitCode = 0)

/-- Stage everything in the clone and commit it; `none` when there was nothing to commit. -/
def commitAll (message : String) : RoundCalls (Except String (Option String)) :=
  (runExpectingSuccess ["add", "-A"] "add -A").tryBind fun _ =>
    nothingStaged.tryBind fun nothing =>
      if nothing then .done (.ok none)
      else
        (runExpectingSuccess ["commit", "--no-verify", "-m", message] "commit").tryBind fun _ =>
          headSha.tryBind fun sha => .done (.ok (some sha))

/-- Whether one commit carries any commit that another does not. -/
def commitIsAheadOf (commit since : String) : RoundCalls (Except String Bool) :=
  (runExpectingSuccess ["rev-list", "--count", s!"{since}..{commit}"] "rev-list").tryBind
    fun count => .done (.ok (count ≠ "0"))

def headIsAheadOf (since : String) : RoundCalls (Except String Bool) := commitIsAheadOf "HEAD" since

/-- `"<added>\t<removed>\t<path>"`, where binary files report `-`, counted in. -/
def countedIn (totals : DiffSummary) (line : String) : DiffSummary :=
  let columns := fields '\t' line
  ⟨totals.files + 1, totals.insertions + (columns[0]?.bind parseU64).getD 0,
    totals.deletions + (columns[1]?.bind parseU64).getD 0⟩

/-- The totals of what `diff --numstat` printed. -/
def diffStatOf (numstat : String) : DiffSummary :=
  ((textLines numstat).filter fun line => trim line ≠ "").foldl countedIn ⟨0, 0, 0⟩

def diffStatAgainst (base : String) : RoundCalls (Except String DiffSummary) :=
  (runExpectingSuccess ["diff", "--numstat", s!"{base}..HEAD"] "diff --numstat").tryBind
    fun numstat => .done (.ok (diffStatOf numstat))

/-! ## The workspace -/

/-- What `git clone` names the remote a clone came from. -/
def cloneRemote : String := "origin"

/-- Check a branch out where a round starts, committing as assembly-line. -/
def startRound (start : PinnedRef) (branch : String) : RoundCalls (Except String RoundWorkspace) :=
  (checkOutNewBranch branch start.sha).tryBind fun _ =>
    commitAsAssemblyLine.tryBind fun _ => .done (.ok ⟨branch, start.sha⟩)

/-- Commit what the agent left uncommitted: the commit the round ends on, or `none` when the round
made nothing. -/
def commit (ws : RoundWorkspace) (message : String) : RoundCalls (Except String (Option String)) :=
  (commitAll message).tryBind fun _ =>
    (headIsAheadOf ws.startedAt).tryBind fun ahead =>
      if ahead then headSha.tryBind fun sha => .done (.ok (some sha)) else .done (.ok none)

/-- The loop of `publish`, from what the last attempt failed with. -/
def publishFrom (ws : RoundWorkspace) (lastFailure : Option String) :
    List ℕ → RoundCalls (Except String Unit)
  | [] =>
    .done (.error
      (s!"could not publish {ws.branch} — the work is lost with the scratch checkout: " ++
        lastFailure.getD ""))
  | wait :: waits =>
    .call (.sleep wait) () fun _ =>
      (pushHeadAs cloneRemote ws.branch).bind fun
        | .ok _ => .done (.ok ())
        | .error e => publishFrom ws (some e) waits

/-- Push the commit the clone ends on, as the job's branch. -/
def publish (ws : RoundWorkspace) : RoundCalls (Except String Unit) :=
  publishFrom ws none RoundWorld.pushBackoff

/-! ## The round -/

def runCommand (spec : CommandSpec) (limit : Option ℕ) :
    RoundCalls (Except String ShellOutcome) :=
  .call (.runCommand spec limit) () fun (outcome : Except String ShellOutcome) => .done outcome

/-- The loop of `provision_toolchain`.  A step with no budget left is not run. -/
def provisionFrom : List (List String) → RoundCalls (Except String Unit)
  | [] => .done (.ok ())
  | args :: steps =>
    .call .remaining () fun (left : ℕ) =>
      (if left = 0 then .done (.ok .timedOut)
        else runCommand ⟨"mise", args⟩ (some left)).tryBind fun outcome =>
          (.done (RoundWorld.afterProvisioning args outcome) :
            RoundCalls (Except String Unit)).tryBind fun _ => provisionFrom steps

/-- Install the repository's toolchain, when the payload asks. -/
def provisionToolchain (payload : RoundPayload) : RoundCalls (Except String Unit) :=
  if payload.provisionToolchain then provisionFrom RoundWorld.provisioningSteps else .done (.ok ())

/-- How long a command of the repository's may run, in nanoseconds. -/
def commandLimit (payload : RoundPayload) : Option ℕ :=
  payload.commandLimitSecs.map fun secs => secs * 1000000000

/-- What `verify` makes of what the agent left; an agent that failed leaves nothing to judge. -/
def rulingOn (payload : RoundPayload) : Option String → RoundCalls VerifyRuling
  | some _ => .done .noObjection
  | none =>
    match payload.verify with
    | none => .done .noObjection
    | some command =>
      .call (.runShell command (commandLimit payload)) ()
        fun (outcome : Except String ShellOutcome) => .done (.ofOutcome outcome)

/-- Commit what the agent left, and publish it. -/
def agentWorkOnBranch (payload : RoundPayload) (ws : RoundWorkspace) :
    RoundCalls (Except String (Option AgentWork)) :=
  (commit ws payload.commitMessage).tryBind fun
    | none => .done (.ok none)
    | some sha =>
      (diffStatAgainst payload.start.sha).tryBind fun stat =>
        (publish ws).tryBind fun _ => .done (.ok (some ⟨ws.branch, sha, stat, payload.remoteName⟩))

/-- One round in a checkout it is handed. -/
def resultInWorkspace (payload : RoundPayload) (ws : RoundWorkspace) :
    RoundCalls (Except String RoundResult) :=
  (provisionToolchain payload).tryBind fun _ =>
    (runCommand payload.command (commandLimit payload)).bind fun ran =>
      (agentWorkOnBranch payload ws).bind fun preserved =>
        (rulingOn payload (agentFailureReason ran)).bind fun ruling =>
          .done (preserved.map (roundResult (agentFailureReason ran) ruling))

def append (said : Appended) : RoundCalls (Except String Unit) :=
  .call (.append said) () fun (written : Except String Unit) => .done written

/-- Append events, until one cannot be written. -/
def appendEvents : List EventKind → RoundCalls (Except String Unit)
  | [] => .done (.ok ())
  | kind :: kinds => (append (.event kind)).tryBind fun _ => appendEvents kinds

def recordCompletion (result : RoundResult) : RoundCalls (Except String Verdict) :=
  (appendEvents (eventsForCompletion result).1).tryBind fun _ =>
    .done (.ok (eventsForCompletion result).2)

/-- One round in its workspace, and the events that record it. -/
def runRoundIn (payload : RoundPayload) (ws : RoundWorkspace) :
    RoundCalls (Except String Verdict) :=
  (resultInWorkspace payload ws).bind fun
    | .ok result => recordCompletion result
    | .error e => recordCompletion (.failed e none)

/-! ## Delivery -/

def viewArgs (jobBranch : String) : List String :=
  ["pr", "view", jobBranch, "--json", "url,state", "--jq", "select(.state == \"OPEN\") | .url"]

def createArgs (jobBranch base title body : String) : List String :=
  ["pr", "create", "--base", base, "--head", jobBranch, "--title", title, "--body", body]

/-- The URL of the branch's open pull request, by what `gh` answered. -/
def openUrl : Except String GhOutput → Option String
  | .error _ => none
  | .ok out => if out.success ∧ trim out.stdout ≠ "" then some (trim out.stdout) else none

/-- What came of asking for a pull request. -/
def createdBy (jobBranch : String) : Except String GhOutput → Delivered
  | .error e => .pushed jobBranch s!"could not run `gh`: {e}"
  | .ok out =>
    if out.success then .opened (trim out.stdout) else .pushed jobBranch (trim out.stderr)

/-- Ask `gh` for a pull request, unless the branch already has one. -/
def openPullRequest (jobBranch base title body : String) : RoundCalls Delivered :=
  .call (.gh (viewArgs jobBranch)) () fun (answer : Except String GhOutput) =>
    match openUrl answer with
    | some url => .done (.alreadyOpen url)
    | none =>
      .call (.gh (createArgs jobBranch base title body)) ()
        fun (answer : Except String GhOutput) => .done (createdBy jobBranch answer)

def deliverBranch (delivery : Delivery) (jobBranch base title body : String) :
    RoundCalls Delivered :=
  match delivery.mode with
  | .none => .done (.skipped "delivery mode is \"none\"")
  | .pr => openPullRequest jobBranch base title body

/-- Remove the round's checkout; failing at it is reported as output. -/
def discardReportingFailure : RoundCalls (Except String Unit) :=
  .call .discard () fun (discarded : Except String Unit) =>
    match discarded with
    | .ok _ => .done (.ok ())
    | .error e => append (.output s!"could not remove the scratch checkout: {e}")

end InClone

/-! ## A whole job -/

namespace ReadyJob

open InClone

variable (job : ReadyJob)

/-- The commit the round committed, if it did. -/
def committedIn (kinds : List EventKind) : Option String :=
  kinds.reverse.findSome? fun kind => match kind with
    | .roundCommitted sha _ _ _ => some sha
    | _ => none

/-- Whether the job's branch, as the round left it, holds commits its base does not. -/
def branchCarriesWorkInClone : RoundCalls Bool :=
  .call .eventsSoFar () fun (events : List Event) =>
    (commitIsAheadOf ((committedIn (events.map Event.kind)).getD job.payload.start.sha)
      job.base.sha).bind fun
        | .ok ahead => .done ahead
        | .error _ => .done false

/-- Open the pull request, and record what came of it. -/
def deliverFromClone : RoundCalls (Except String (Option BaseDiffers)) :=
  (InClone.deliverBranch job.config.delivery job.payload.branch job.target
    ((textLines job.payload.commitMessage).head?.getD "") job.prompt).bind fun delivered =>
      (append (match delivered.event with
        | some kind => .event kind
        | none => .output delivered.text)).tryBind fun _ =>
          .done (.ok (if job.target = job.base.name then none
            else some ⟨job.target, job.base.name⟩))

/-- A branch that passed and carries work is delivered. -/
def deliverIfPassed : Verdict → RoundCalls (Except String (Option BaseDiffers))
  | .passed => job.branchCarriesWorkInClone.bind fun carries =>
    if carries then job.deliverFromClone else .done (.ok none)
  | .failed => .done (.ok none)

def conclusionOf (verdict : Verdict) (baseDiffers : Option BaseDiffers) :
    RoundCalls (Except String JobConclusion) :=
  .call .eventsSoFar () fun (events : List Event) =>
    .done (.ok ⟨job.payload.jobId, verdict, .fromEvents job.payload.jobId events, baseDiffers⟩)

/-- Run the round, deliver its branch if it passed, and conclude; an error when the round's frames
cannot be written. -/
def runInClone : RoundCalls (Except String JobConclusion) :=
  (InClone.startRound job.payload.start job.payload.branch).bind fun
    | .error e => (append (.event (.roundFailed e))).tryBind fun _ => job.conclusionOf .failed none
    | .ok ws =>
      (InClone.runRoundIn job.payload ws).tryBind fun verdict =>
        (job.deliverIfPassed verdict).tryBind fun baseDiffers =>
          discardReportingFailure.tryBind fun _ => job.conclusionOf verdict baseDiffers

end ReadyJob

/-! ## What the answers come to -/

/-- A world in which nothing is made and nothing fails, to put in it what some stage came to. -/
def plainWorld : RoundWorld where
  checkOut := .ok ()
  commitAs := .ok ()
  provisioning _ := ⟨0, .ran [] .cancelled⟩
  agent := .ran [] .cancelled
  commitAll := .ok ()
  headIsAhead := .ok false
  headSha := .ok ""
  diffStat := .ok ⟨0, 0, 0⟩
  pushHead _ := .ok ()
  verify := .ran [] .cancelled
  commitIsAhead _ _ := .ok false
  gh _ := .ok ⟨true, "", ""⟩
  discard := .ok ()
  clock _ := 0

section Answers

open Calls InClone

variable {payload : RoundPayload}

lemma yields_startRound (start : PinnedRef) (branch : String) :
    (InClone.startRound start branch).Yields fun out =>
      (∃ w : RoundWorld, w.startRound = out.map fun _ => ()) ∧
        ∀ ws, out = .ok ws → ws = ⟨branch, start.sha⟩ := by
  refine Yields.bind (P := fun _ => True) (.of_forall (fun _ => trivial) _) ?_
  rintro (e | checkedOut) -
  · exact ⟨⟨{ plainWorld with checkOut := .error e }, rfl⟩, nofun⟩
  · refine Yields.bind (P := fun _ => True) (.of_forall (fun _ => trivial) _) ?_
    rintro (e | identified) -
    · exact ⟨⟨{ plainWorld with commitAs := .error e }, rfl⟩, nofun⟩
    · exact ⟨⟨plainWorld, rfl⟩, fun ws hws => (Except.ok.inj hws).symm⟩

lemma yields_commit (ws : RoundWorkspace) (message : String) :
    (InClone.commit ws message).Yields fun out => ∃ w : RoundWorld, w.commit = out := by
  refine Yields.bind (P := fun _ => True) (.of_forall (fun _ => trivial) _) ?_
  rintro (e | made) -
  · exact ⟨{ plainWorld with commitAll := .error e }, rfl⟩
  refine Yields.bind (P := fun _ => True) (.of_forall (fun _ => trivial) _) ?_
  rintro (e | _ | _) -
  · exact ⟨{ plainWorld with headIsAhead := .error e }, rfl⟩
  · exact ⟨plainWorld, rfl⟩
  · refine Yields.bind (P := fun _ => True) (.of_forall (fun _ => trivial) _) ?_
    rintro (e | sha) -
    · exact ⟨{ plainWorld with headIsAhead := .ok true, headSha := .error e }, rfl⟩
    · exact ⟨{ plainWorld with headIsAhead := .ok true, headSha := .ok sha }, rfl⟩

lemma publishFrom_congr {w w' : RoundWorld} {branch : String} {lastFailure : Option String}
    {attempts : List ℕ} (h : ∀ n ∈ attempts, w.pushHead n = w'.pushHead n) :
    w.publishFrom branch lastFailure attempts = w'.publishFrom branch lastFailure attempts := by
  induction attempts generalizing lastFailure with
  | nil => rfl
  | cons attempt attempts ih =>
      rw [RoundWorld.publishFrom, RoundWorld.publishFrom, h attempt List.mem_cons_self]
      cases w'.pushHead attempt with
      | error e => exact ih fun n hn => h n (List.mem_cons_of_mem _ hn)
      | ok pushed => rfl

lemma yields_publishFrom (ws : RoundWorkspace) (lastFailure : Option String) (waits : List ℕ)
    (first : ℕ) : (InClone.publishFrom ws lastFailure waits).Yields fun out =>
      ∃ w : RoundWorld,
        w.publishFrom ws.branch lastFailure (List.range' first waits.length) = out := by
  induction waits generalizing lastFailure first with
  | nil => exact ⟨plainWorld, rfl⟩
  | cons wait waits ih =>
      intro slept
      refine Yields.bind (P := fun _ => True) (.of_forall (fun _ => trivial) _) ?_
      rintro (e | pushed) -
      · refine (ih (some e) (first + 1)).mono ?_
        rintro out ⟨w, hw⟩
        let pushed : RoundWorld :=
          { w with pushHead := fun n => if n = first then .error e else w.pushHead n }
        refine ⟨pushed, ?_⟩
        have hfirst : pushed.pushHead first = .error e := if_pos rfl
        rw [List.length_cons, List.range'_succ, RoundWorld.publishFrom, ← hw, hfirst]
        refine publishFrom_congr fun n hn => if_neg ?_
        obtain ⟨hle, -⟩ := List.mem_range'_1.mp hn
        exact Nat.ne_of_gt hle
      · exact ⟨plainWorld, rfl⟩

lemma yields_agentWorkOnBranch (ws : RoundWorkspace) (hbranch : ws.branch = payload.branch) :
    (InClone.agentWorkOnBranch payload ws).Yields fun out =>
      ∃ w, AssemblyLine.agentWorkOnBranch w payload = out := by
  refine (yields_commit ws payload.commitMessage).bind ?_
  rintro (e | _ | sha) ⟨w, hw⟩
  · refine ⟨w, ?_⟩
    rw [AssemblyLine.agentWorkOnBranch, hw]
  · refine ⟨w, ?_⟩
    rw [AssemblyLine.agentWorkOnBranch, hw]
  refine Yields.bind (P := fun _ => True) (.of_forall (fun _ => trivial) _) ?_
  rintro (e | stat) -
  · refine ⟨{ w with diffStat := .error e }, ?_⟩
    have hcommit : ({ w with diffStat := .error e } : RoundWorld).commit = .ok (some sha) := hw
    rw [AssemblyLine.agentWorkOnBranch, hcommit]
  · refine (yields_publishFrom ws none RoundWorld.pushBackoff 0).bind ?_
    rintro out ⟨pushes, hpushes⟩
    let made : RoundWorld := { w with diffStat := .ok stat, pushHead := pushes.pushHead }
    have hcommit : made.commit = .ok (some sha) := hw
    have hpublish : made.publish payload.branch = out := by
      rw [← hpushes, ← hbranch, RoundWorld.publish, List.range_eq_range']
      exact publishFrom_congr fun _ _ => rfl
    have hwork : AssemblyLine.agentWorkOnBranch made payload =
        out.map fun _ => some ⟨payload.branch, sha, stat, payload.remoteName⟩ := by
      rw [AssemblyLine.agentWorkOnBranch, hcommit, ← hpublish]
    rcases out with e | pushed
    · exact ⟨made, hwork⟩
    · exact ⟨made, hwork.trans (by rw [hbranch]; rfl)⟩

end Answers

/-! ## What a round's frames come to -/

/-- How a world acts on a round's calls. -/
abbrev RoundActs (Ω : Type) : Type := (c : RoundCall) → Unit → Ω → RoundCall.Answer c → Ω → Prop

/-- What was appended, without its stamp. -/
def AppendCall.unstamped : AppendCall → Appended
  | .appendEvent _ kind => .event kind
  | .appendOutput line => .output line

/-- A call whose lines are framed as it runs. -/
def RoundCall.RunsACommand : RoundCall → Prop
  | .runCommand _ _ | .runShell _ _ => True
  | _ => False

/-- A call that appends nothing. -/
def RoundCall.IsQuiet : RoundCall → Prop
  | .append _ | .runCommand _ _ | .runShell _ _ => False
  | _ => True

/-- What is relied on of the frames that a round's writer has written. -/
structure KeepsFrames {Ω : Type} (frames : Ω → List AppendCall) (acts : RoundActs Ω)
    (drifts : Ω → Ω → Prop) : Prop where
  appends : ∀ said given s t, acts (.append said) given s (.ok ()) t →
    ∃ frame : AppendCall, frame.unstamped = said ∧ frames t = frames s ++ [frame]
  /-- A frame that cannot be written is none of them. -/
  unwritten : ∀ said given s e t, acts (.append said) given s (.error e) t → frames t = frames s
  commands : ∀ c given s answer t, c.RunsACommand → acts c given s answer t →
    ∃ lines : List String, frames t = frames s ++ lines.map .appendOutput
  events : ∀ given s events t, acts .eventsSoFar given s events t → events = eventsOf (frames s)
  quiet : ∀ c given s answer t, c.IsQuiet → acts c given s answer t → frames t = frames s
  drift : ∀ s t, drifts s t → frames t = frames s

/-- The frames that were appended come from a clock. -/
lemma exists_stampedBy (frames : List AppendCall) :
    ∃ clock, stampedBy clock (frames.map AppendCall.unstamped) = frames := by
  induction frames with
  | nil => exact ⟨fun _ => 0, rfl⟩
  | cons frame frames ih =>
      obtain ⟨clock, hclock⟩ := ih
      unfold stampedBy at hclock ⊢
      cases frame with
      | appendEvent now kind =>
          refine ⟨fun n => n.casesOn now clock, ?_⟩
          rw [List.map_cons, List.mapIdx_cons]
          exact congrArg (AppendCall.appendEvent now kind :: ·) hclock
      | appendOutput line =>
          refine ⟨fun n => clock (n - 1), ?_⟩
          rw [List.map_cons, List.mapIdx_cons]
          exact congrArg (AppendCall.appendOutput line :: ·) hclock

lemma kindsOf_unstamped (frames : List AppendCall) :
    kindsOf (frames.map AppendCall.unstamped) = (eventsOf frames).map Event.kind := by
  obtain ⟨clock, hclock⟩ := exists_stampedBy frames
  rw [← map_kind_stampedBy clock, hclock]

/-- A command that printed these lines and had this outcome. -/
def runOf (lines : List String) : Except String ShellOutcome → CommandRun
  | .error e => .ran lines (.waitFailed e)
  | .ok (.exited code) => .ran lines (.waited (.exited code))
  | .ok .timedOut => .ran lines .deadline
  | .ok .cancelled => .ran lines .cancelled

lemma supervise_runOf (describedAs : String) (lines : List String)
    (outcome : Except String ShellOutcome) :
    supervise describedAs (runOf lines outcome) = (outcome, lines.map .output) := by
  rcases outcome with e | ⟨code⟩ | _ | _ <;> rfl

section Frames

open Calls InClone

variable {Ω α : Type} {frames : Ω → List AppendCall} {acts : RoundActs Ω} {drifts : Ω → Ω → Prop}
  {payload : RoundPayload} {before : List Appended} {post : α → Ω → Prop}

/-- What has been appended. -/
def Said (frames : Ω → List AppendCall) (said : List Appended) (s : Ω) : Prop :=
  (frames s).map AppendCall.unstamped = said

/-- A program that has appended this much, and what may then be said of it where it returns. -/
def Appends (frames : Ω → List AppendCall) (acts : RoundActs Ω) (drifts : Ω → Ω → Prop)
    (before : List Appended) (p : RoundCalls α) (post : α → Ω → Prop) : Prop :=
  Triple acts drifts (fun _ => True) (Said frames before) p post

variable (keeps : KeepsFrames frames acts drifts)
include keeps

lemma said_stable (before : List Appended) : Stable drifts (Said frames before) := by
  intro s t hs drifted
  rw [Said, keeps.drift s t drifted]
  exact hs

lemma appends_done {a : α} (h : ∀ s, Said frames before s → post a s) :
    Appends frames acts drifts before (.done a) post :=
  .done (said_stable keeps before) fun s hs => ⟨trivial, h s hs⟩

/-- A program that ends with an error says nothing of what it would have returned. -/
lemma appends_error {β : Type} {e : String} {P : β → Ω → Prop} :
    Appends frames acts drifts before (.done (.error e) : RoundCalls (Except String β))
      fun out s => ∀ b, out = .ok b → P b s :=
  appends_done keeps fun _ _ _ hok => by cases hok

lemma appends_quiet {c : RoundCall} {next : RoundCall.Answer c → RoundCalls α} (hc : c.IsQuiet)
    (rest : ∀ answer, Appends frames acts drifts before (next answer) post) :
    Appends frames acts drifts before (.call c () next) post := by
  refine .call (said_stable keeps before) (fun _ _ => trivial) ?_ rest
  intro s answer t hs acted
  rw [Said, keeps.quiet c () s answer t hc acted]
  exact hs

lemma appends_eventsSoFar {next : List Event → RoundCalls α}
    (rest : ∀ events, Triple acts drifts (fun _ => True)
      (fun s => events = eventsOf (frames s) ∧ Said frames before s) (next events) post) :
    Appends frames acts drifts before (.call .eventsSoFar () next) post := by
  refine .call (said_stable keeps before) (fun _ _ => trivial) ?_ rest
  intro s events t hs acted
  have hframes := keeps.quiet .eventsSoFar () s events t trivial acted
  refine ⟨?_, ?_⟩
  · rw [hframes]
    exact keeps.events () s events t acted
  · rw [Said, hframes]
    exact hs

omit keeps in
lemma said_lines {s t : Ω} {lines : List String} (hs : Said frames before s)
    (h : frames t = frames s ++ lines.map .appendOutput) :
    Said frames (before ++ lines.map .output) t := by
  rw [Said, h, List.map_append, List.map_map, show _ = before from hs]
  rfl

lemma appends_command {c : RoundCall} {next : RoundCall.Answer c → RoundCalls α}
    (hc : c.RunsACommand) (rest : ∀ answer (lines : List String),
      Appends frames acts drifts (before ++ lines.map .output) (next answer) post) :
    Appends frames acts drifts before (.call c () next) post := by
  refine .call (Q := fun _ t => ∃ lines : List String,
    Said frames (before ++ lines.map Appended.output) t) (said_stable keeps before)
    (fun _ _ => trivial) ?_
      fun answer => .of_exists (rest answer)
  intro s answer t hs acted
  obtain ⟨lines, hlines⟩ := keeps.commands c () s answer t hc acted
  exact ⟨lines, said_lines hs hlines⟩

/-- A frame is appended, or the program is told that it was not. -/
lemma appends_append {said : Appended} {next : Except String Unit → RoundCalls α}
    (written : Appends frames acts drifts (before ++ [said]) (next (.ok ())) post)
    (unwritten : ∀ e, Appends frames acts drifts before (next (.error e)) post) :
    Appends frames acts drifts before (.call (.append said) () next) post := by
  have hacted : ∀ (s : Ω) (answer : Except String Unit) (t : Ω), Said frames before s →
      acts (.append said) () s answer t →
      match answer with
        | .ok _ => Said frames (before ++ [said]) t
        | .error _ => Said frames before t := by
    intro s answer t hs acted
    cases answer with
    | error e =>
        refine Eq.trans ?_ hs
        rw [keeps.unwritten said () s e t acted]
    | ok written =>
        obtain ⟨frame, hframe, happended⟩ := keeps.appends said () s t acted
        show List.map _ _ = _
        rw [happended, List.map_append, List.map_singleton, hframe, show _ = before from hs]
  refine .call (said_stable keeps before) (fun _ _ => trivial) hacted ?_
  rintro (e | _)
  · exact unwritten e
  · exact written

variable (before) in
/-- A program that only makes quiet calls appends nothing. -/
lemma appends_quietly {p : RoundCalls α} (hall : p.All fun c _ => c.IsQuiet) :
    Appends frames acts drifts before p fun _ => Said frames before := by
  induction p with
  | done a => exact appends_done keeps fun s hs => hs
  | call c given next ih => exact appends_quiet keeps hall.1 fun answer => ih answer (hall.2 answer)

omit keeps in
lemma provisionFrom_congr {w w' : RoundWorld} {steps : List (List String)}
    (h : ∀ args ∈ steps, w.provisioning args = w'.provisioning args) :
    w.provisionFrom steps = w'.provisionFrom steps := by
  induction steps with
  | nil => rfl
  | cons args steps ih =>
      have hran : w.provisioningRan args = w'.provisioningRan args := by
        rw [RoundWorld.provisioningRan, RoundWorld.provisioningRan, h args List.mem_cons_self]
      rw [RoundWorld.provisionFrom, RoundWorld.provisionFrom, hran,
        ih fun args hargs => h args (List.mem_cons_of_mem _ hargs)]

omit keeps in
/-- A step that fails ends provisioning. -/
lemma provisionFrom_error {w : RoundWorld} {args : List String} {steps : List (List String)}
    {lines : List Appended} {e : String} {outcome : Except String ShellOutcome}
    (hran : w.provisioningRan args = (outcome, lines))
    (hafter : outcome.bind (RoundWorld.afterProvisioning args) = .error e) :
    w.provisionFrom (args :: steps) = (.error e, lines) := by
  rw [RoundWorld.provisionFrom, hran]
  dsimp only
  rw [hafter]

lemma appends_provisionFrom {steps : List (List String)} (hsteps : steps.Nodup) :
    Appends frames acts drifts before (provisionFrom steps) fun out s =>
      ∃ (w : RoundWorld) (lines : List Appended),
        w.provisionFrom steps = (out, lines) ∧ Said frames (before ++ lines) s := by
  induction steps generalizing before with
  | nil =>
      refine appends_done keeps fun s hs => ⟨plainWorld, [], rfl, ?_⟩
      rw [List.append_nil]
      exact hs
  | cons args steps ih =>
      obtain ⟨hnotMem, hrest⟩ := List.nodup_cons.mp hsteps
      refine appends_quiet keeps trivial fun (left : ℕ) => ?_
      by_cases hleft : left = 0
      · rw [if_pos hleft]
        refine appends_done keeps fun s hs => ⟨plainWorld, [], provisionFrom_error rfl rfl, ?_⟩
        rw [List.append_nil]
        exact hs
      rw [if_neg hleft]
      refine appends_command keeps trivial fun outcome lines => ?_
      let ran (w : RoundWorld) : RoundWorld :=
        { w with provisioning := fun a =>
            if a = args then ⟨left, runOf lines outcome⟩ else w.provisioning a }
      have hran : ∀ w, (ran w).provisioningRan args = (outcome, lines.map .output) := by
        intro w
        have hstep : (ran w).provisioning args = ⟨left, runOf lines outcome⟩ := if_pos rfl
        rw [RoundWorld.provisioningRan, hstep, ← supervise_runOf "mise"]
        exact if_neg hleft
      rcases outcome with e | outcome
      · exact appends_done keeps fun s hs =>
          ⟨ran plainWorld, _, provisionFrom_error (hran plainWorld) rfl, hs⟩
      change Appends frames acts drifts _ (Calls.tryBind
        (.done (RoundWorld.afterProvisioning args outcome)) fun _ => provisionFrom steps) _
      cases hafter : RoundWorld.afterProvisioning args outcome with
      | error e =>
          exact appends_done keeps fun s hs =>
            ⟨ran plainWorld, _, provisionFrom_error (hran plainWorld) hafter, hs⟩
      | ok provisioned =>
          refine (ih hrest).weaken (fun _ hs => hs) ?_
          rintro out s ⟨w, more, hmore, hs⟩
          have htail : (ran w).provisionFrom steps = (out, more) := by
            rw [← hmore]
            refine provisionFrom_congr fun a ha => if_neg ?_
            rintro rfl
            exact hnotMem ha
          have hafter' : (Except.ok outcome : Except String ShellOutcome).bind
              (RoundWorld.afterProvisioning args) = .ok provisioned := hafter
          refine ⟨ran w, lines.map .output ++ more, ?_, ?_⟩
          · rw [RoundWorld.provisionFrom, hran w, htail]
            dsimp only
            rw [hafter']
          · rw [← List.append_assoc]
            exact hs

omit keeps in
lemma isQuiet_runExpectingSuccess (args : List String) (operation : String) :
    (runExpectingSuccess args operation).All fun c _ => c.IsQuiet :=
  ⟨trivial, fun _ => trivial⟩

omit keeps in
lemma isQuiet_commitIsAheadOf (commit since : String) :
    (commitIsAheadOf commit since).All fun c _ => c.IsQuiet :=
  .tryBind (isQuiet_runExpectingSuccess _ _) fun _ => trivial

omit keeps in
lemma isQuiet_startRound (start : PinnedRef) (branch : String) :
    (InClone.startRound start branch).All fun c _ => c.IsQuiet := by
  have hquiet := isQuiet_runExpectingSuccess
  exact .tryBind (.tryBind (hquiet _ _) fun _ => trivial) fun _ =>
    .tryBind (.tryBind (hquiet _ _) fun _ => .tryBind (hquiet _ _) fun _ => trivial) fun _ =>
      trivial

omit keeps in
lemma isQuiet_publishFrom (ws : RoundWorkspace) (lastFailure : Option String) (waits : List ℕ) :
    (publishFrom ws lastFailure waits).All fun c _ => c.IsQuiet := by
  induction waits generalizing lastFailure with
  | nil => trivial
  | cons wait waits ih =>
      have hpush : (pushHeadAs cloneRemote ws.branch).All fun c _ => c.IsQuiet :=
        .tryBind (isQuiet_runExpectingSuccess _ _) fun _ => trivial
      refine ⟨trivial, fun _ => hpush.bind ?_⟩
      rintro (e | pushed)
      · exact ih (some e)
      · trivial

omit keeps in
lemma isQuiet_agentWorkOnBranch (payload : RoundPayload) (ws : RoundWorkspace) :
    (InClone.agentWorkOnBranch payload ws).All fun c _ => c.IsQuiet := by
  have hquiet := isQuiet_runExpectingSuccess
  have hcommitAll : (commitAll payload.commitMessage).All fun c _ => c.IsQuiet := by
    refine .tryBind (hquiet _ _) fun _ => .tryBind ⟨trivial, fun _ => trivial⟩ ?_
    rintro (_ | _)
    · exact .tryBind (hquiet _ _) fun _ => .tryBind (hquiet _ _) fun _ => trivial
    · trivial
  have hcommit : (commit ws payload.commitMessage).All fun c _ => c.IsQuiet := by
    refine .tryBind hcommitAll fun _ => .tryBind (isQuiet_commitIsAheadOf _ _) ?_
    rintro (_ | _)
    · trivial
    · exact .tryBind (hquiet _ _) fun _ => trivial
  refine .tryBind hcommit ?_
  rintro (_ | sha)
  · trivial
  · exact .tryBind (.tryBind (hquiet _ _) fun _ => trivial) fun _ =>
      .tryBind (isQuiet_publishFrom ws none _) fun _ => trivial

/-- What `verify` rules, and the lines it printed. -/
lemma appends_rulingOn (ran : Except String ShellOutcome) :
    Appends frames acts drifts before (rulingOn payload (agentFailureReason ran)) fun ruling s =>
      ∃ (w : RoundWorld) (lines : List Appended),
        (match agentFailureReason ran with
          | some _ => (VerifyRuling.noObjection, [])
          | none => verifyRuling w payload) = (ruling, lines) ∧
        Said frames (before ++ lines) s := by
  have hnothing : ∀ s, Said frames before s → Said frames (before ++ []) s := by
    intro s hs
    rw [List.append_nil]
    exact hs
  cases hfailed : agentFailureReason ran with
  | some reason =>
      exact appends_done keeps fun s hs => ⟨plainWorld, [], rfl, hnothing s hs⟩
  | none =>
      unfold rulingOn
      dsimp only
      cases hverify : payload.verify with
      | none =>
          refine appends_done keeps fun s hs => ⟨plainWorld, [], ?_, hnothing s hs⟩
          rw [verifyRuling, hverify]
      | some command =>
          refine appends_command keeps trivial fun outcome lines => appends_done keeps fun s hs =>
            ⟨{ plainWorld with verify := runOf lines outcome }, lines.map .output, ?_, hs⟩
          rw [verifyRuling, hverify]
          dsimp only
          rw [supervise_runOf]

lemma appends_provisionToolchain :
    Appends frames acts drifts before (provisionToolchain payload) fun out s =>
      ∃ (w : RoundWorld) (lines : List Appended),
        w.provisionToolchain payload = (out, lines) ∧ Said frames (before ++ lines) s := by
  unfold provisionToolchain RoundWorld.provisionToolchain
  by_cases hasks : payload.provisionToolchain = true
  · rw [if_pos hasks]
    refine (appends_provisionFrom keeps (by decide)).weaken (fun _ hs => hs) ?_
    rintro out s ⟨w, lines, hw, hs⟩
    exact ⟨w, lines, by rw [if_pos hasks, hw], hs⟩
  · rw [if_neg hasks]
    refine appends_done keeps fun s hs => ⟨plainWorld, [], by rw [if_neg hasks], ?_⟩
    rw [List.append_nil]
    exact hs

lemma appends_appendEvents (kinds : List EventKind) :
    Appends frames acts drifts before (appendEvents kinds) fun out s =>
      ∀ written, out = .ok written → Said frames (before ++ kinds.map .event) s := by
  induction kinds generalizing before with
  | nil =>
      refine appends_done keeps fun s hs written _ => ?_
      rw [List.map_nil, List.append_nil]
      exact hs
  | cons kind kinds ih =>
      refine appends_append keeps ?_ fun e => appends_error keeps
      refine Triple.weaken ih (fun _ hs => hs) fun out s hs written hout => ?_
      rw [List.map_cons, List.append_cons]
      exact hs written hout

lemma appends_recordCompletion (result : RoundResult) :
    Appends frames acts drifts before (recordCompletion result) fun out s =>
      ∀ verdict, out = .ok verdict → (eventsForCompletion result).2 = verdict ∧
        Said frames (before ++ (eventsForCompletion result).1.map .event) s := by
  refine (appends_appendEvents keeps _).bind ?_
  rintro (e | written)
  · exact .done (fun _ _ _ _ => nofun) fun s hs => ⟨trivial, nofun⟩
  · have hdone : Appends frames acts drifts
        (before ++ (eventsForCompletion result).1.map Appended.event)
        (.done (.ok (eventsForCompletion result).2) : RoundCalls (Except String Verdict))
          fun out s =>
          ∀ verdict, out = .ok verdict → (eventsForCompletion result).2 = verdict ∧
            Said frames (before ++ (eventsForCompletion result).1.map .event) s := by
      refine appends_done keeps fun s hs => ?_
      rintro verdict ⟨⟩
      exact ⟨rfl, hs⟩
    exact Triple.weaken hdone (fun s hs => hs written rfl) fun out s hs => hs

variable {job : ReadyJob}

lemma appends_branchCarriesWork :
    Appends frames acts drifts before job.branchCarriesWorkInClone fun carries s =>
      (∃ w, job.branchCarriesWork w before = carries) ∧ Said frames before s := by
  refine appends_eventsSoFar keeps fun events => ?_
  have hahead := appends_quietly before keeps (isQuiet_commitIsAheadOf
    ((ReadyJob.committedIn (events.map Event.kind)).getD job.payload.start.sha) job.base.sha)
  have hkinds : ∀ s, events = eventsOf (frames s) ∧ Said frames before s →
      events.map Event.kind = kindsOf before ∧ Said frames before s := by
    rintro s ⟨rfl, hs⟩
    exact ⟨by rw [← kindsOf_unstamped, show _ = before from hs], hs⟩
  refine Triple.weaken (.of_and fun hevents => ?_) hkinds fun _ _ h => h
  refine hahead.bind ?_
  rintro (e | ahead)
  · exact appends_done keeps fun s hs =>
      ⟨⟨{ plainWorld with commitIsAhead := fun _ _ => .error e }, rfl⟩, hs⟩
  · exact appends_done keeps fun s hs =>
      ⟨⟨{ plainWorld with commitIsAhead := fun _ _ => .ok ahead }, rfl⟩, hs⟩

omit keeps in
lemma yields_deliverBranch (delivery : Delivery) (jobBranch base title body : String) :
    (InClone.deliverBranch delivery jobBranch base title body).Yields fun delivered =>
      ∃ w, AssemblyLine.deliverBranch w delivery jobBranch base title body = delivered := by
  unfold InClone.deliverBranch AssemblyLine.deliverBranch
  cases delivery.mode with
  | none => exact ⟨plainWorld, rfl⟩
  | pr =>
      intro viewed
      dsimp only
      cases hurl : openUrl viewed with
      | some url =>
          refine ⟨{ plainWorld with gh := fun _ => viewed }, ?_⟩
          have hopen : openPullRequestOf { plainWorld with gh := fun _ => viewed } jobBranch =
            some url := hurl
          simp only [AssemblyLine.openPullRequest, hopen]
      | none =>
          intro created
          let w : RoundWorld := { plainWorld with
            gh := fun args => if args = viewArgs jobBranch then viewed else created }
          have hviewed : w.gh (viewArgs jobBranch) = viewed := if_pos rfl
          have hother : createArgs jobBranch base title body ≠ viewArgs jobBranch := by
            simp [createArgs, viewArgs]
          have hcreated : w.gh (createArgs jobBranch base title body) = created :=
            if_neg (t := viewed) hother
          have hopen : openPullRequestOf w jobBranch = none := by
            rw [← hurl, ← hviewed]
            rfl
          refine ⟨w, ?_⟩
          rw [AssemblyLine.openPullRequest, hopen, ← hcreated]
          rfl

omit keeps in
/-- A delivery runs `gh` and nothing else. -/
lemma all_deliverBranch {P : RoundCall → Prop} (hgh : ∀ args, P (.gh args)) (delivery : Delivery)
    (jobBranch base title body : String) :
    (InClone.deliverBranch delivery jobBranch base title body).All fun c _ => P c := by
  unfold InClone.deliverBranch
  cases delivery.mode with
  | none => trivial
  | pr =>
      refine ⟨hgh _, fun viewed => ?_⟩
      dsimp only
      cases openUrl viewed with
      | some url => trivial
      | none => exact ⟨hgh _, fun _ => trivial⟩

/-- What is done about a verdict. -/
def ReadyJob.deliveryOf (job : ReadyJob) (w : RoundWorld) (said : List Appended) :
    Verdict → Option BaseDiffers × List Appended
  | .passed => if job.branchCarriesWork w said then job.deliver w else (none, [])
  | .failed => (none, [])

lemma appends_conclusionOf (verdict : Verdict) (differs : Option BaseDiffers) :
    Appends frames acts drifts before (job.conclusionOf verdict differs) fun out s =>
      out = .ok ⟨job.payload.jobId, verdict,
        .fromEvents job.payload.jobId (eventsOf (frames s)), differs⟩ ∧ Said frames before s := by
  refine appends_eventsSoFar keeps fun events => .done ?_ ?_
  · intro s t hs drifted
    rw [Said, keeps.drift s t drifted]
    exact hs
  · rintro s ⟨rfl, hs⟩
    exact ⟨trivial, rfl, hs⟩

omit keeps in
/-- The run of a job whose stages came to this. -/
lemma run_of_stages {w : RoundWorld} {verdict : Verdict} {differs : Option BaseDiffers}
    {said more : List Appended} (hstart : w.startRound = .ok ())
    (hround : AssemblyLine.runRoundIn w job.payload = (verdict, said))
    (hdelivery : job.deliveryOf w said verdict = (differs, more)) :
    let all := said ++ more ++ match w.discard with
      | .ok _ => []
      | .error e => [.output s!"could not remove the scratch checkout: {e}"]
    job.run w = (job.conclude w all verdict differs, all) := by
  obtain ⟨rfl, rfl⟩ := Prod.ext_iff.mp hdelivery
  dsimp only
  rw [ReadyJob.run, hstart]
  dsimp only
  rw [hround]
  cases verdict with
  | passed => rfl
  | failed => rfl

end Frames

/-! ## What a round's answers come to -/

/-- What each stage of a round comes to in a world is what its program comes to by some of these
answers in a row. -/
structure RoundAnswered (payload : RoundPayload) (w : RoundWorld) (answers : RoundAnswers) :
    Prop where
  provisioned : Calls.CameTo answers (InClone.provisionToolchain payload)
    (w.provisionToolchain payload).1
  ran : (w.provisionToolchain payload).1 = .ok () →
    Calls.CameTo answers (InClone.runCommand payload.command (InClone.commandLimit payload))
      (supervise payload.command.program w.agent).1
  preserved : (w.provisionToolchain payload).1 = .ok () →
    Calls.CameTo answers
      (InClone.agentWorkOnBranch payload ⟨payload.branch, payload.start.sha⟩)
      (agentWorkOnBranch w payload)
  ruled : (w.provisionToolchain payload).1 = .ok () →
    Calls.CameTo answers (InClone.rulingOn payload (agentFailure w payload))
      (rulingOnAgent w payload).1

/-- So is what a delivery comes to, after this has been said. -/
structure DeliveryAnswered (job : ReadyJob) (w : RoundWorld) (said : List Appended)
    (answers : RoundAnswers) : Prop where
  carries : Calls.CameTo answers job.branchCarriesWorkInClone (job.branchCarriesWork w said)
  delivered : job.branchCarriesWork w said = true →
    Calls.CameTo answers (InClone.deliverBranch job.config.delivery job.payload.branch job.target
      ((textLines job.payload.commitMessage).head?.getD "") job.prompt) (job.delivered w)

/-- And so is all that a run comes to. -/
structure RunAnswered (job : ReadyJob) (w : RoundWorld) (answers : RoundAnswers) : Prop where
  started : ∃ out, w.startRound = out.map (fun _ => ()) ∧
    Calls.CameTo answers (InClone.startRound job.payload.start job.payload.branch) out
  round : w.startRound = .ok () → RoundAnswered job.payload w answers
  delivery : w.startRound = .ok () → (runRoundIn w job.payload).1 = .passed →
    DeliveryAnswered job w (runRoundIn w job.payload).2 answers
  discarded : w.startRound = .ok () → Calls.CameTo answers (.call .discard () .done) w.discard

section Answered

open Calls InClone

variable {Ω α β : Type} {frames : Ω → List AppendCall} {acts : RoundActs Ω} {drifts : Ω → Ω → Prop}
  {payload : RoundPayload} {job : ReadyJob} {w : RoundWorld} {before said : List Appended}
  {given more : RoundAnswers} {p : RoundCalls α} {F : α → List Appended → Prop}
  {G : α → List Appended → RoundAnswers → Prop}

lemma RoundAnswered.append (h : RoundAnswered payload w given) (more : RoundAnswers) :
    RoundAnswered payload w (given ++ more) :=
  ⟨h.provisioned.append more, fun hok => (h.ran hok).append more,
    fun hok => (h.preserved hok).append more, fun hok => (h.ruled hok).append more⟩

lemma DeliveryAnswered.append (h : DeliveryAnswered job w said given) (more : RoundAnswers) :
    DeliveryAnswered job w said (given ++ more) :=
  ⟨h.carries.append more, fun hcarries => (h.delivered hcarries).append more⟩

/-- The answers do not get at the frames. -/
lemma KeepsFrames.keepingAnswers (keeps : KeepsFrames frames acts drifts) :
    KeepsFrames (fun s : Ω × RoundAnswers => frames s.1) (keepingAnswers acts)
      (givingNone drifts) where
  appends := fun said given s t acted => keeps.appends said given s.1 t.1 acted.1
  unwritten := fun said given s e t acted => keeps.unwritten said given s.1 e t.1 acted.1
  commands := fun c given s answer t hc acted => keeps.commands c given s.1 answer t.1 hc acted.1
  events := fun given s events t acted => keeps.events given s.1 events t.1 acted.1
  quiet := fun c given s answer t hc acted => keeps.quiet c given s.1 answer t.1 hc acted.1
  drift := fun s t drifted => keeps.drift s.1 t.1 drifted.1

/-- A program begun with this said and these answers given, and what may then be said of it where it
returns. -/
def AppendsBy (frames : Ω → List AppendCall) (acts : RoundActs Ω) (drifts : Ω → Ω → Prop)
    (before : List Appended) (given : RoundAnswers) (p : RoundCalls α)
    (post : α → Ω × RoundAnswers → Prop) : Prop :=
  Triple (keepingAnswers acts) (givingNone drifts) (fun _ => True)
    (fun s => s.2 = given ∧ Said frames before s.1) p post

/-- What has been said and answered. -/
def Left (frames : Ω → List AppendCall) (G : α → List Appended → RoundAnswers → Prop) (out : α)
    (s : Ω × RoundAnswers) : Prop :=
  G out ((frames s.1).map AppendCall.unstamped) s.2

/-- What a program leaves, by what it came to. -/
lemma AppendsBy.weaken {H : α → List Appended → RoundAnswers → Prop}
    (h : AppendsBy frames acts drifts before given p (Left frames G))
    (leaves : ∀ out said during, p.Comes during out → G out said (given ++ during) →
      H out said (given ++ during)) :
    AppendsBy frames acts drifts before given p (Left frames H) := by
  refine Triple.weaken (Triple.answered h given) (fun s hs => ⟨hs.1, hs⟩) ?_
  rintro out s ⟨⟨during, hduring, comes⟩, hs⟩
  rw [Left, hduring] at hs ⊢
  exact leaves out _ during comes hs

lemma AppendsBy.bind {f : α → RoundCalls β} {post : β → Ω × RoundAnswers → Prop}
    (first : AppendsBy frames acts drifts before given p (Left frames G))
    (second : ∀ out said during, p.Comes during out → G out said (given ++ during) →
      AppendsBy frames acts drifts said (given ++ during) (f out) post) :
    AppendsBy frames acts drifts before given (p.bind f) post := by
  have hfirst : AppendsBy frames acts drifts before given p (Left frames fun out said answers =>
      ∃ during, p.Comes during out ∧ G out said (given ++ during) ∧ answers = given ++ during) :=
    first.weaken fun out said during comes hG => ⟨during, comes, hG, rfl⟩
  refine Triple.bind hfirst fun out => ?_
  have hthen : Triple (keepingAnswers acts) (givingNone drifts) (fun _ => True)
      (fun s => ∃ said during, p.Comes during out ∧ G out said (given ++ during) ∧
        s.2 = given ++ during ∧ Said frames said s.1) (f out) post :=
    .of_exists fun said => .of_exists fun during => .of_and fun comes => .of_and fun hG =>
      second out said during comes hG
  refine hthen.weaken ?_ fun _ _ h => h
  rintro s ⟨during, comes, hG, hanswers⟩
  exact ⟨_, during, comes, hG, hanswers, rfl⟩

/-- What a program appends. -/
lemma appendsBy_of_appends {post : α → Ω × RoundAnswers → Prop}
    (h : Appends (fun s : Ω × RoundAnswers => frames s.1) (keepingAnswers acts) (givingNone drifts)
      before p post)
    (hpost : ∀ out s, post out s → F out ((frames s.1).map AppendCall.unstamped)) :
    AppendsBy frames acts drifts before given p (Left frames fun out said _ => F out said) :=
  Triple.weaken h (fun _ hs => hs.2) hpost

/-- The answers a program was given are some of all that were given. -/
lemma cameTo_append {out : α} {during : RoundAnswers} (comes : p.Comes during out) :
    CameTo (given ++ during) p out :=
  ⟨during, ⟨given, [], List.append_nil _⟩, comes⟩

variable (keeps : KeepsFrames frames acts drifts)
include keeps

lemma appendsBy_done {a : α} {post : α → Ω × RoundAnswers → Prop}
    (h : ∀ s : Ω × RoundAnswers, s.2 = given → Said frames before s.1 → post a s) :
    AppendsBy frames acts drifts before given (.done a) post := by
  refine .done ?_ fun s hs => ⟨trivial, h s hs.1 hs.2⟩
  rintro s t ⟨hanswers, hs⟩ drifted
  exact ⟨drifted.2.trans hanswers, said_stable keeps before s.1 t.1 hs drifted.1⟩

lemma appendsBy_leaves {a : α} (h : G a before given) :
    AppendsBy frames acts drifts before given (.done a) (Left frames G) := by
  refine appendsBy_done keeps fun s hanswers hs => ?_
  rw [Left, hanswers, show _ = before from hs]
  exact h

/-- What fails leaves nothing to say of what it returns. -/
lemma AppendsBy.tryBind {p : RoundCalls (Except String α)}
    {f : α → RoundCalls (Except String β)}
    {G : Except String α → List Appended → RoundAnswers → Prop}
    {P : β → Ω × RoundAnswers → Prop}
    (first : AppendsBy frames acts drifts before given p (Left frames G))
    (second : ∀ a said during, p.Comes during (.ok a) → G (.ok a) said (given ++ during) →
      AppendsBy frames acts drifts said (given ++ during) (f a) fun out s =>
        ∀ b, out = .ok b → P b s) :
    AppendsBy frames acts drifts before given (p.tryBind f) fun out s =>
      ∀ b, out = .ok b → P b s := by
  refine first.bind ?_
  rintro (e | a) said during comes h
  · exact appendsBy_done keeps fun _ _ _ b hb => by cases hb
  · exact second a said during comes h

/-- A frame that is appended at the end of a program. -/
lemma appendsBy_append (said : Appended) :
    AppendsBy frames acts drifts before given (InClone.append said)
      (Left frames fun out all _ => ∀ written, out = .ok written → all = before ++ [said]) :=
  appendsBy_of_appends (appends_append keeps.keepingAnswers
    (appends_done keeps.keepingAnswers fun _ hs _ _ => hs)
    fun _ => appends_error keeps.keepingAnswers) fun _ _ hs => hs

lemma appendsBy_resultInWorkspace :
    AppendsBy frames acts drifts before given
      (InClone.resultInWorkspace payload ⟨payload.branch, payload.start.sha⟩)
      (Left frames fun out said answers => ∃ (w : RoundWorld) (lines : List Appended),
        AssemblyLine.resultInWorkspace w payload = (out, lines) ∧ said = before ++ lines ∧
          RoundAnswered payload w answers) := by
  refine (appendsBy_of_appends (F := fun out said => ∃ (w : RoundWorld) (lines : List Appended),
    w.provisionToolchain payload = (out, lines) ∧ said = before ++ lines)
    (appends_provisionToolchain keeps.keepingAnswers) fun _ _ hs => hs).bind ?_
  rintro (e | provisioned) _ first installs ⟨provisions, installing, hprovisions, rfl⟩
  · refine appendsBy_leaves keeps ⟨provisions, installing, ?_, rfl, ?_⟩
    · rw [AssemblyLine.resultInWorkspace, hprovisions]
    · have hfailed : (provisions.provisionToolchain payload).1 = .error e := by rw [hprovisions]
      refine ⟨by rw [hfailed]; exact cameTo_append installs, ?_, ?_, ?_⟩
      all_goals
        rw [hfailed]
        exact nofun
  -- The agent runs, and leaves what it printed and its outcome.
  have hran : Appends (fun s : Ω × RoundAnswers => frames s.1) (keepingAnswers acts)
      (givingNone drifts) (before ++ installing) (runCommand payload.command (commandLimit payload))
      fun _ s => ∃ printed : List String,
        (frames s.1).map AppendCall.unstamped = before ++ installing ++ printed.map .output :=
    appends_command keeps.keepingAnswers trivial fun outcome printed =>
      appends_done keeps.keepingAnswers fun s hs => ⟨printed, hs⟩
  refine (appendsBy_of_appends (F := fun _ said => ∃ printed : List String,
    said = before ++ installing ++ printed.map .output) hran fun _ _ hs => hs).bind ?_
  rintro ran _ second runs ⟨printed, rfl⟩
  refine (appendsBy_of_appends (F := fun out said =>
    (∃ w, AssemblyLine.agentWorkOnBranch w payload = out) ∧
      said = before ++ installing ++ printed.map Appended.output)
    ((appends_quietly (before ++ installing ++ printed.map Appended.output) keeps.keepingAnswers
      (isQuiet_agentWorkOnBranch payload _)).yields
        (yields_agentWorkOnBranch ⟨payload.branch, payload.start.sha⟩ rfl))
    fun _ _ hs => hs).bind ?_
  rintro preserved _ third preserves ⟨⟨works, hworks⟩, rfl⟩
  refine (appendsBy_of_appends (F := fun ruling said => ∃ (w : RoundWorld) (lines : List Appended),
    (match agentFailureReason ran with
      | some _ => (VerifyRuling.noObjection, [])
      | none => verifyRuling w payload) = (ruling, lines) ∧
    said = before ++ installing ++ printed.map .output ++ lines)
    (appends_rulingOn keeps.keepingAnswers ran) fun _ _ hs => hs).bind ?_
  rintro ruling _ fourth rules ⟨verifies, judging, hverifies, rfl⟩
  let w : RoundWorld :=
    { works with
      provisioning := provisions.provisioning
      agent := runOf printed ran
      verify := verifies.verify }
  have hprovisioned : w.provisionToolchain payload = (.ok provisioned, installing) := by
    rw [← hprovisions]
    exact ite_congr rfl (fun _ => provisionFrom_congr fun _ _ => rfl) fun _ => rfl
  have hagent : supervise payload.command.program w.agent = (ran, printed.map .output) :=
    supervise_runOf _ _ _
  have hfailure : agentFailure w payload = agentFailureReason ran := by rw [agentFailure, hagent]
  have hruling : rulingOnAgent w payload = (ruling, judging) := by
    rw [rulingOnAgent, hfailure, ← hverifies]
    rfl
  have hpreserved : AssemblyLine.agentWorkOnBranch w payload = preserved := hworks
  refine appendsBy_leaves keeps
    ⟨w, installing ++ printed.map .output ++ judging, ?_, by simp only [List.append_assoc], ?_⟩
  · rw [AssemblyLine.resultInWorkspace, hprovisioned]
    dsimp only
    rw [hruling, hpreserved, hfailure, hagent]
  · refine ⟨?_, fun _ => ?_, fun _ => ?_, fun _ => ?_⟩
    · rw [hprovisioned]
      exact (((cameTo_append installs).append second).append third).append fourth
    · rw [hagent]
      exact ((cameTo_append runs).append third).append fourth
    · rw [hpreserved]
      exact (cameTo_append preserves).append fourth
    · rw [hfailure, hruling]
      exact cameTo_append rules

lemma appendsBy_runRoundIn :
    AppendsBy frames acts drifts before given
      (InClone.runRoundIn payload ⟨payload.branch, payload.start.sha⟩)
      (Left frames fun out said answers => ∀ verdict, out = .ok verdict →
        ∃ (w : RoundWorld) (lines : List Appended),
          AssemblyLine.runRoundIn w payload = (verdict, lines) ∧ said = before ++ lines ∧
            RoundAnswered payload w answers) := by
  refine (appendsBy_resultInWorkspace keeps).bind ?_
  rintro ended _ during - ⟨w, lines, hw, rfl, hanswered⟩
  have hround : ∀ result, roundResultIn w payload = result →
      AppendsBy frames acts drifts (before ++ lines) (given ++ during) (recordCompletion result)
        (Left frames fun out said answers => ∀ verdict, out = .ok verdict →
          ∃ (w : RoundWorld) (lines : List Appended),
            AssemblyLine.runRoundIn w payload = (verdict, lines) ∧ said = before ++ lines ∧
              RoundAnswered payload w answers) := by
    intro result hresult
    refine (appendsBy_of_appends (F := fun out said => ∀ verdict, out = .ok verdict →
      (eventsForCompletion result).2 = verdict ∧
        said = before ++ lines ++ (eventsForCompletion result).1.map .event)
      (appends_recordCompletion keeps.keepingAnswers result) fun _ _ hs => hs).weaken ?_
    intro out said recording _ hs verdict hout
    obtain ⟨hverdict, hsaid⟩ := hs verdict hout
    refine ⟨w, lines ++ (eventsForCompletion result).1.map .event, ?_, ?_, hanswered.append _⟩
    · rw [AssemblyLine.runRoundIn, hresult, hw, hverdict]
    · rw [hsaid, List.append_assoc]
  rcases ended with e | result
  · exact hround _ (by rw [roundResultIn, hw])
  · exact hround _ (by rw [roundResultIn, hw])

lemma appendsBy_deliver :
    AppendsBy frames acts drifts before given job.deliverFromClone
      (Left frames fun out said answers => ∀ differs, out = .ok differs →
        ∃ (w : RoundWorld) (lines : List Appended),
          job.deliver w = (differs, lines) ∧ said = before ++ lines ∧
            CameTo answers (InClone.deliverBranch job.config.delivery job.payload.branch job.target
              ((textLines job.payload.commitMessage).head?.getD "") job.prompt)
              (job.delivered w)) := by
  refine (appendsBy_of_appends (F := fun delivered said =>
    (∃ w, job.delivered w = delivered) ∧ said = before)
    ((appends_quietly before keeps.keepingAnswers (all_deliverBranch (P := RoundCall.IsQuiet)
      (fun _ => trivial) job.config.delivery job.payload.branch job.target
      ((textLines job.payload.commitMessage).head?.getD "") job.prompt)).yields
        (yields_deliverBranch _ _ _ _ _)) fun _ _ hs => hs).bind ?_
  rintro delivered said first delivers ⟨⟨w, rfl⟩, hsaid⟩
  rw [hsaid]
  refine AppendsBy.tryBind keeps (appendsBy_append keeps _) fun written all during _ hall => ?_
  refine appendsBy_done keeps fun s hanswers hs differs hdiffers =>
    ⟨w, (job.deliver w).2, ?_, Eq.trans hs (hall written rfl), ?_⟩
  · rw [← Except.ok.inj hdiffers]
    rfl
  · rw [hanswers]
    exact (cameTo_append delivers).append during

lemma appendsBy_deliverIfPassed (verdict : Verdict) :
    AppendsBy frames acts drifts before given (job.deliverIfPassed verdict)
      (Left frames fun out said answers => ∀ differs, out = .ok differs →
        ∃ (w : RoundWorld) (lines : List Appended),
          job.deliveryOf w before verdict = (differs, lines) ∧ said = before ++ lines ∧
            (verdict = .passed → DeliveryAnswered job w before answers)) := by
  cases verdict with
  | failed =>
      refine appendsBy_leaves keeps fun differs hdiffers => ⟨plainWorld, [], ?_, ?_, nofun⟩
      · rw [ReadyJob.deliveryOf, Except.ok.inj hdiffers]
      · rw [List.append_nil]
  | passed =>
      refine (appendsBy_of_appends (F := fun carries said =>
        (∃ w, job.branchCarriesWork w before = carries) ∧ said = before)
        (appends_branchCarriesWork keeps.keepingAnswers) fun _ _ hs => hs).bind ?_
      rintro carries said first carried ⟨⟨compares, hcompares⟩, hsaid⟩
      rw [hsaid]
      cases carries with
      | false =>
          refine appendsBy_leaves keeps fun differs hdiffers => ⟨compares, [], ?_, ?_, fun _ => ?_⟩
          · rw [ReadyJob.deliveryOf, hcompares, ← Except.ok.inj hdiffers]
            rfl
          · rw [List.append_nil]
          · refine ⟨by rw [hcompares]; exact cameTo_append carried, ?_⟩
            rw [hcompares]
            exact nofun
      | true =>
          refine (appendsBy_deliver keeps).weaken fun out all during _ hs differs hout => ?_
          obtain ⟨delivers, lines, hdelivers, hall, delivered⟩ := hs differs hout
          let w : RoundWorld := { delivers with commitIsAhead := compares.commitIsAhead }
          have hcarries : job.branchCarriesWork w before = true := hcompares
          refine ⟨w, lines, ?_, hall, fun _ => ⟨?_, fun _ => delivered⟩⟩
          · rw [ReadyJob.deliveryOf, hcarries, ← hdelivers]
            rfl
          · rw [hcarries]
            exact (cameTo_append carried).append during

/-- The discarding of the checkout, and the line it may leave. -/
lemma appendsBy_discard :
    AppendsBy frames acts drifts before given discardReportingFailure
      (Left frames fun out said answers => ∀ written, out = .ok written →
        ∃ discarded : Except String Unit,
          (said = before ++ match discarded with
            | .ok _ => []
            | .error e => [.output s!"could not remove the scratch checkout: {e}"]) ∧
          CameTo answers (.call .discard () .done) discarded) := by
  have hquiet : (.call .discard () .done : RoundCalls (Except String Unit)).All
      fun c _ => c.IsQuiet := ⟨trivial, fun _ => trivial⟩
  refine AppendsBy.bind (p := .call .discard () .done) (appendsBy_of_appends (F := fun _ said =>
    said = before) (appends_quietly before keeps.keepingAnswers hquiet) fun _ _ hs => hs) ?_
  rintro (e | removed) said first discards hsaid
  · rw [hsaid]
    exact (appendsBy_append keeps _).weaken fun out all during _ hs written hout =>
      ⟨.error e, hs written hout, (cameTo_append discards).append during⟩
  · refine appendsBy_leaves keeps fun written _ => ⟨.ok removed, ?_, cameTo_append discards⟩
    rw [hsaid, List.append_nil]

/-- A job's run in some world whose stages came to what they did by the answers given. -/
def RunsAs (frames : Ω → List AppendCall) (job : ReadyJob) (conclusion : JobConclusion)
    (s : Ω × RoundAnswers) : Prop :=
  ∃ world, RunAnswered job world s.2 ∧ (job.run world).1 = conclusion ∧
    stampedBy world.clock (job.run world).2 = frames s.1

/-- Whatever the stamps are, a run that has said this concludes with it. -/
lemma appendsBy_conclusionOf {verdict : Verdict} {differs : Option BaseDiffers}
    (hrun : ∀ clock, let v := { w with clock := clock }
      job.run v = (job.conclude v before verdict differs, before))
    (answered : ∀ clock answers, RunAnswered job { w with clock := clock } (given ++ answers)) :
    AppendsBy frames acts drifts before given (job.conclusionOf verdict differs) fun out s =>
      ∀ conclusion, out = .ok conclusion → RunsAs frames job conclusion s := by
  have hconcluded : Appends (fun s : Ω × RoundAnswers => frames s.1) (keepingAnswers acts)
    (givingNone drifts) before (job.conclusionOf verdict differs) _ :=
      appends_conclusionOf keeps.keepingAnswers verdict differs
  refine Triple.weaken (Triple.answered hconcluded given) (fun s hs => hs) ?_
  rintro out s ⟨⟨during, hduring, -⟩, rfl, hs⟩ conclusion hconclusion
  obtain ⟨clock, hclock⟩ := exists_stampedBy (frames s.1)
  rw [show (frames s.1).map AppendCall.unstamped = _ from hs] at hclock
  have hrun := hrun clock
  refine ⟨{ w with clock := clock }, hduring ▸ answered clock during, ?_, ?_⟩
  · rw [hrun, ← Except.ok.inj hconclusion, ReadyJob.conclude, ← hclock]
  · rw [hrun]
    exact hclock

/-- What a whole run has appended, where it concludes, is what its stages came to. -/
lemma appendsBy_runInClone :
    AppendsBy frames acts drifts [] [] job.runInClone fun out s =>
      ∀ conclusion, out = .ok conclusion → RunsAs frames job conclusion s := by
  refine (appendsBy_of_appends (F := fun out said =>
    ((∃ w : RoundWorld, w.startRound = out.map fun _ => ()) ∧
      ∀ ws, out = .ok ws → ws = ⟨job.payload.branch, job.payload.start.sha⟩) ∧ said = [])
    ((appends_quietly [] keeps.keepingAnswers (isQuiet_startRound job.payload.start
      job.payload.branch)).yields (yields_startRound _ _)) fun _ _ hs => hs).bind ?_
  rintro (e | ws) said first begins ⟨⟨⟨starts, hstarts⟩, hws⟩, hsaid⟩
  · rw [hsaid]
    refine AppendsBy.tryBind keeps (appendsBy_append keeps _) fun written all second _ hall => ?_
    rw [hall written rfl]
    have hfailed : ∀ clock, ({ starts with clock := clock } : RoundWorld).startRound = .error e :=
      fun _ => hstarts
    refine appendsBy_conclusionOf (w := starts) keeps (fun clock => ?_) fun clock answers => ?_
    · dsimp only
      rw [ReadyJob.run, hfailed]
      rfl
    · have began : CameTo ([] ++ first) (startRound job.payload.start job.payload.branch)
          (.error e) := cameTo_append begins
      refine ⟨⟨.error e, hfailed clock, (began.append second).append answers⟩, ?_, ?_, ?_⟩
      all_goals
        rw [hfailed]
        exact nofun
  obtain rfl := hws ws rfl
  rw [hsaid]
  refine AppendsBy.tryBind keeps (appendsBy_runRoundIn keeps) fun verdict told second _ round => ?_
  obtain ⟨rounds, _, hround, rfl, rounded⟩ := round verdict rfl
  refine AppendsBy.tryBind keeps (appendsBy_deliverIfPassed keeps verdict)
    fun differs _ third _ delivery => ?_
  obtain ⟨delivers, more, hdelivery, rfl, delivered⟩ := delivery differs rfl
  refine AppendsBy.tryBind keeps (appendsBy_discard keeps) fun written _ fourth _ discard => ?_
  obtain ⟨discarded, rfl, discards⟩ := discard written rfl
  let w : RoundWorld :=
    { rounds with
      checkOut := starts.checkOut
      commitAs := starts.commitAs
      commitIsAhead := delivers.commitIsAhead
      gh := delivers.gh
      discard := discarded }
  refine appendsBy_conclusionOf (w := w) keeps (fun clock => ?_) fun clock answers => ?_
  · have hstart : ({ w with clock := clock } : RoundWorld).startRound = .ok () := hstarts
    have hrounded : AssemblyLine.runRoundIn { w with clock := clock } job.payload =
        (verdict, told) := hround
    have hdelivered : job.deliveryOf { w with clock := clock } told verdict = (differs, more) := by
      rw [← hdelivery]
      cases verdict <;> rfl
    exact run_of_stages hstart hrounded hdelivered
  · have began : CameTo ([] ++ first) (startRound job.payload.start job.payload.branch)
        (.ok ⟨job.payload.branch, job.payload.start.sha⟩) := cameTo_append begins
    have began := (((began.append second).append third).append fourth).append answers
    have rounded := ((rounded.append third).append fourth).append answers
    refine ⟨⟨.ok _, hstarts, began⟩, fun _ => ?_, fun _ hpassed => ?_, fun _ => ?_⟩
    · exact ⟨rounded.provisioned, rounded.ran, rounded.preserved, rounded.ruled⟩
    · have hpassed : verdict = .passed := by
        rw [← hpassed]
        exact (congrArg Prod.fst hround).symm
      have delivered := ((delivered hpassed).append fourth).append answers
      have htold : (AssemblyLine.runRoundIn { w with clock := clock } job.payload).2 = told :=
        congrArg Prod.snd hround
      rw [htold]
      exact ⟨delivered.carries, delivered.delivered⟩
    · exact discards.append answers

/-- **A round's calls come to a run of its stages.**  Whatever is answered to them, and whatever is
printed meanwhile, a round that begins with nothing appended and concludes has appended, and
concludes, what `ReadyJob.run` makes of some world: one in which every stage comes to what its
program comes to by the answers that the round was given. -/
theorem runInClone_concludes {conclusion : JobConclusion} {s t : Ω} (hs : frames s = [])
    (leads : Leads acts drifts job.runInClone s (some (.ok conclusion)) t) :
    (∃ answers, Leads (keepingAnswers acts) (givingNone drifts) job.runInClone (s, [])
      (some (.ok conclusion)) (t, answers)) ∧
    ∀ answers, Leads (keepingAnswers acts) (givingNone drifts) job.runInClone (s, [])
        (some (.ok conclusion)) (t, answers) →
      ∃ world, RunAnswered job world answers ∧ (job.run world).1 = conclusion ∧
        stampedBy world.clock (job.run world).2 = frames t := by
  refine ⟨leads.exists_answers [], fun answers answered => ?_⟩
  have hbegun : Said frames [] s := by
    rw [Said, hs]
    rfl
  exact (appendsBy_runInClone keeps (s, []) _ (t, answers) ⟨rfl, hbegun⟩ answered).2 _ rfl
    conclusion rfl

end Answered

end AssemblyLine
