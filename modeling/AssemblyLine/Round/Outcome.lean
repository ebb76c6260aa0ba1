import AssemblyLine.Round.Completion
import AssemblyLine.Round.Settle
import AssemblyLine.Run.Config

/-!
# How a round comes out

`ReadyJob.run` takes a round through its stages, each of which can fail: the checkout, the
toolchain, the agent, the commit, its diff, the push, `verify`, and the pull request at the end.
What every stage comes to is a `RoundWorld`, so a round is a function of its world to what it
appends on its frame writer and how it concludes.

`ReadyJob.kinds_run` says that what a round appends is `readyJobRun` of its result, and
`ReadyJob.result_passed_iff` which worlds it passes in.  `round_agrees_with_its_verdict` puts the
two beside what the readers of a round's events make of them.
-/

namespace AssemblyLine

/-! ## Commands -/

/-- What a process's parent is told of its end. -/
inductive ExitStatus
  | exited (code : ℤ)
  /-- Killed by a signal, by whoever sent it. -/
  | signaled
deriving DecidableEq, Repr

def ExitStatus.code : ExitStatus → Option ℤ
  | .exited code => some code
  | .signaled => none

/-- Whichever comes first to a command that was started. -/
inductive CommandEnd
  | waited (status : ExitStatus)
  | waitFailed (error : String)
  | deadline
  | cancelled
deriving DecidableEq, Repr

/-- What becomes of a command: the lines it printed, once it was started. -/
inductive CommandRun
  | unspawnable (error : String)
  | ran (printed : List String) (ended : CommandEnd)
deriving DecidableEq, Repr

/-- Why a command stopped. -/
inductive ShellOutcome
  | exited (code : ℤ)
  | timedOut
  | cancelled
deriving DecidableEq, Repr

def ShellOutcome.failureReason : ShellOutcome → Option String
  | .exited code => if code = 0 then none else some s!"exit {code}"
  | .timedOut => some "timed out"
  | .cancelled => some "cancelled"

/-- What a round appends on its writer, before the writer stamps it. -/
inductive Appended
  | event (kind : EventKind)
  | output (line : String)
deriving DecidableEq, Repr

/-- Wait for whichever comes first: exit, deadline, or cancellation. -/
def supervise (describedAs : String) : CommandRun → Except String ShellOutcome × List Appended
  | .unspawnable e => (.error s!"spawning `{describedAs}`: {e}", [])
  | .ran printed ended =>
    let outcome : Except String ShellOutcome :=
      match ended with
      | .waited status => .ok (.exited (status.code.getD (-1)))
      | .waitFailed e => .error e
      | .deadline => .ok .timedOut
      | .cancelled => .ok .cancelled
    (outcome, printed.map .output)

/-- A command that exited 0 of its own accord. -/
def CommandRun.Succeeded (run : CommandRun) : Prop :=
  ∃ printed, run = .ran printed (.waited (.exited 0))

/-! ## The world a round runs in -/

/-- What one step of provisioning starts with, and comes to. -/
structure ProvisioningStep where
  /-- What is left of the budget. -/
  remaining : ℕ
  run : CommandRun
deriving DecidableEq, Repr

/-- What `gh` answered. -/
structure GhOutput where
  success : Bool
  stdout : String
  stderr : String
deriving DecidableEq, Repr

/-- What every stage of a round comes to. -/
structure RoundWorld where
  /-- Checking the job's branch out. -/
  checkOut : Except String Unit
  /-- Setting the identity the checkout commits as. -/
  commitAs : Except String Unit
  provisioning : List String → ProvisioningStep
  agent : CommandRun
  commitAll : Except String Unit
  headIsAhead : Except String Bool
  headSha : Except String String
  diffStat : Except String DiffSummary
  /-- Each attempt at the push. -/
  pushHead : ℕ → Except String Unit
  verify : CommandRun
  /-- Whether a commit carries any commit that another does not. -/
  commitIsAhead : String → String → Except String Bool
  /-- What `gh` answers to its arguments. -/
  gh : List String → Except String GhOutput
  discard : Except String Unit
  /-- What the clock says when the writer stamps its `n`th frame. -/
  clock : ℕ → Instant

namespace RoundWorld

variable (world : RoundWorld)

/-- `workspace::start_round`. -/
def startRound : Except String Unit := world.checkOut.bind fun _ => world.commitAs

/-- `workspace::commit`: the commit the round ends on; `none` when the round made nothing. -/
def commit : Except String (Option String) :=
  match world.commitAll, world.headIsAhead with
  | .error e, _ => .error e
  | .ok _, .error e => .error e
  | .ok _, .ok true => world.headSha.map some
  | .ok _, .ok false => .ok none

/-- Waits before each push attempt, in milliseconds. -/
def pushBackoff : List ℕ := [0, 500, 2000]

/-- The loop of `workspace::publish`, from what the last attempt failed with. -/
def publishFrom (branch : String) (lastFailure : Option String) : List ℕ → Except String Unit
  | [] =>
    .error (s!"could not publish {branch} — the work is lost with the scratch checkout: " ++
      lastFailure.getD "")
  | attempt :: attempts =>
    match world.pushHead attempt with
    | .ok _ => .ok ()
    | .error e => publishFrom branch (some e) attempts

/-- Push the commit the clone ends on, as the job's branch. -/
def publish (branch : String) : Except String Unit :=
  world.publishFrom branch none (List.range pushBackoff.length)

/-! ### Provisioning -/

def provisioningSteps : List (List String) := [["trust", "--all", "--yes"], ["install", "--yes"]]

/-- How long cloning and provisioning may take together, as it is written. -/
def provisioningLimit : String := "15m"

/-- Run a step of provisioning.  One with no budget left has timed out without being run. -/
def provisioningRan (args : List String) : Except String ShellOutcome × List Appended :=
  let step := world.provisioning args
  if step.remaining = 0 then (.ok .timedOut, []) else supervise "mise" step.run

/-- What provisioning makes of a step that is over. -/
def afterProvisioning (args : List String) (outcome : ShellOutcome) : Except String Unit :=
  match outcome, outcome.failureReason with
  | _, none => .ok ()
  | .timedOut, some _ => .error s!"provisioning timed out after {provisioningLimit}"
  | _, some reason =>
    let written := " ".intercalate args
    .error s!"provisioning the toolchain failed: `mise {written}` {reason}"

/-- The loop of `provision_toolchain`. -/
def provisionFrom : List (List String) → Except String Unit × List Appended
  | [] => (.ok (), [])
  | args :: steps =>
    let ran := world.provisioningRan args
    match ran.1.bind (afterProvisioning args) with
    | .error e => (.error e, ran.2)
    | .ok _ => ((provisionFrom steps).1, ran.2 ++ (provisionFrom steps).2)

/-- Install the repository's toolchain, when the payload asks. -/
def provisionToolchain (payload : RoundPayload) : Except String Unit × List Appended :=
  if payload.provisionToolchain then world.provisionFrom provisioningSteps else (.ok (), [])

end RoundWorld

/-! ## The stages -/

/-- Why the agent failed, or `none` when it ran to a clean exit. -/
def agentFailureReason : Except String ShellOutcome → Option String
  | .error unspawnable => some unspawnable
  | .ok ran => ran.failureReason

/-- What `verify` had to say about the tree the branch carries. -/
inductive VerifyRuling
  | noObjection
  /-- `verify` ran to completion and exited non-zero. -/
  | rejected (reason : String)
  /-- `verify` never got to judge anything. -/
  | interrupted (reason : String)
deriving DecidableEq, Repr

/-- What a ruling is made of, once `verify` is over. -/
def VerifyRuling.ofOutcome : Except String ShellOutcome → VerifyRuling
  | .ok (.exited code) => if code = 0 then .noObjection else .rejected s!"exit {code}"
  | .ok .timedOut => .interrupted "verify timed out"
  | .ok .cancelled => .interrupted "verify cancelled"
  | .error e => .interrupted s!"verify could not run: {e}"

section Stages

variable (world : RoundWorld) (payload : RoundPayload)

def verifyRuling : VerifyRuling × List Appended :=
  match payload.verify with
  | none => (.noObjection, [])
  | some command =>
    let ran := supervise command world.verify
    (.ofOutcome ran.1, ran.2)

/-- Commit what the agent left, and publish it. -/
def agentWorkOnBranch : Except String (Option AgentWork) :=
  match world.commit with
  | .error e => .error e
  | .ok none => .ok none
  | .ok (some sha) =>
    match world.diffStat with
    | .error e => .error e
    | .ok stat =>
      (world.publish payload.branch).map fun _ =>
        some ⟨payload.branch, sha, stat, payload.remoteName⟩

/-- How a round ended, by why the agent failed, what `verify` ruled and the work that was left. -/
def roundResult (agentFailure : Option String) (ruling : VerifyRuling) (work : Option AgentWork) :
    RoundResult :=
  match agentFailure, ruling with
  -- Neither of these is a judgement about the work, so neither becomes a `VerifyRejected`.
  | some reason, _ => .failed reason work
  | none, .interrupted reason => .failed reason work
  | none, .rejected reason => .rejected reason work
  | none, .noObjection =>
    match work with
    | none => .passedUnchanged
    | some work => .passedWithWork work

/-- Why the agent failed, run in the round's checkout. -/
def agentFailure : Option String :=
  agentFailureReason (supervise payload.command.program world.agent).1

/-- What `verify` makes of what the agent left; an agent that failed leaves nothing to judge. -/
def rulingOnAgent : VerifyRuling × List Appended :=
  match agentFailure world payload with
  | some _ => (.noObjection, [])
  | none => verifyRuling world payload

/-- One round in a checkout it is handed.  The agent's work is committed and published before
success is decided. -/
def resultInWorkspace : Except String RoundResult × List Appended :=
  let provisioned := world.provisionToolchain payload
  match provisioned.1 with
  | .error e => (.error e, provisioned.2)
  | .ok _ =>
    let ruling := rulingOnAgent world payload
    ((agentWorkOnBranch world payload).map (roundResult (agentFailure world payload) ruling.1),
      provisioned.2 ++ (supervise payload.command.program world.agent).2 ++ ruling.2)

/-- How a round ended: one that could not be administered at all has failed, without a branch to
name. -/
def roundResultIn : RoundResult :=
  match (resultInWorkspace world payload).1 with
  | .error e => .failed e none
  | .ok result => result

/-- One round in its workspace, and the events that record it. -/
def runRoundIn : Verdict × List Appended :=
  let completion := eventsForCompletion (roundResultIn world payload)
  (completion.2, (resultInWorkspace world payload).2 ++ completion.1.map .event)

end Stages

/-! ## Delivery -/

def Delivered.text : Delivered → String
  | .skipped why => s!"not delivered: {why}"
  | .pushed branch because => s!"pushed {branch} — no pull request opened: {because}"
  | .opened url => s!"opened {url}"
  | .alreadyOpen url => s!"updated {url}"

section Delivering

variable (world : RoundWorld)

/-- The URL of the branch's open pull request. -/
def openPullRequestOf (jobBranch : String) : Option String :=
  match world.gh ["pr", "view", jobBranch, "--json", "url,state", "--jq",
      "select(.state == \"OPEN\") | .url"] with
  | .error _ => none
  | .ok out => if out.success ∧ trim out.stdout ≠ "" then some (trim out.stdout) else none

/-- Ask `gh` for a pull request, unless the branch already has one. -/
def openPullRequest (jobBranch base title body : String) : Delivered :=
  match openPullRequestOf world jobBranch with
  | some url => .alreadyOpen url
  | none =>
    match world.gh ["pr", "create", "--base", base, "--head", jobBranch, "--title", title,
        "--body", body] with
    | .error e => .pushed jobBranch s!"could not run `gh`: {e}"
    | .ok out =>
      if out.success then .opened (trim out.stdout) else .pushed jobBranch (trim out.stderr)

/-- `delivery::deliver`. -/
def deliverBranch (delivery : Delivery) (jobBranch base title body : String) : Delivered :=
  match delivery.mode with
  | .none => .skipped "delivery mode is \"none\""
  | .pr => openPullRequest world jobBranch base title body

end Delivering

/-! ## A whole job -/

/-- The pull request targets a different branch from the one the job was cut from. -/
structure BaseDiffers where
  base : String
  baseRef : String
deriving DecidableEq, Repr

/-- A job that has passed every check: its config read and valid, its id claimed or its branch
found. -/
structure ReadyJob where
  payload : RoundPayload
  config : RepoConfig
  base : PinnedRef
  prompt : String
  claimed : Bool
deriving DecidableEq, Repr

/-- What a finished job left. -/
structure JobConclusion where
  job : ℕ
  verdict : Verdict
  report : JobReport
  baseDiffers : Option BaseDiffers
deriving DecidableEq, Repr

/-- The kinds of event in what a round appends. -/
def kindsOf (said : List Appended) : List EventKind :=
  said.filterMap fun appended => match appended with
    | .event kind => some kind
    | .output _ => none

/-- What a round appends, as calls on its writer: each event is stamped as it is appended. -/
def stampedBy (clock : ℕ → Instant) (said : List Appended) : List AppendCall :=
  said.mapIdx fun n appended => match appended with
    | .event kind => .appendEvent (clock n) kind
    | .output line => .appendOutput line

namespace ReadyJob

variable (job : ReadyJob) (world : RoundWorld)

/-- Whether the job's branch holds commits its base does not. -/
def branchCarriesWork (said : List Appended) : Bool :=
  let committed := (kindsOf said).reverse.findSome? fun kind => match kind with
    | .roundCommitted sha _ _ _ => some sha
    | _ => none
  match world.commitIsAhead (committed.getD job.payload.start.sha) job.base.sha with
  | .ok ahead => ahead
  | .error _ => false

/-- What branch the job's pull request targets. -/
def target : String := job.config.base.getD job.base.name

/-- What delivering the job's branch comes to. -/
def delivered : Delivered :=
  deliverBranch world job.config.delivery job.payload.branch job.target
    ((textLines job.payload.commitMessage).head?.getD "") job.prompt

/-- Open the pull request, and record what came of it: an event for a pull request that exists, a
line of output otherwise. -/
def deliver : Option BaseDiffers × List Appended :=
  let said : Appended :=
    match (job.delivered world).event with
    | some kind => .event kind
    | none => .output (job.delivered world).text
  (if job.target = job.base.name then none else some ⟨job.target, job.base.name⟩, [said])

/-- What the job concludes with, from everything it has appended. -/
def conclude (said : List Appended) (verdict : Verdict) (baseDiffers : Option BaseDiffers) :
    JobConclusion :=
  ⟨job.payload.jobId, verdict,
    .fromEvents job.payload.jobId (eventsOf (stampedBy world.clock said)), baseDiffers⟩

/-- Run the round, deliver its branch if it passed, and conclude. -/
def run : JobConclusion × List Appended :=
  match world.startRound with
  | .error e =>
    let said := [Appended.event (.roundFailed e)]
    (job.conclude world said .failed none, said)
  | .ok _ =>
    let round := runRoundIn world job.payload
    let delivery :=
      match round.1 with
      | .passed => if job.branchCarriesWork world round.2 then job.deliver world else (none, [])
      | .failed => (none, [])
    let discarded :=
      match world.discard with
      | .ok _ => []
      | .error e => [Appended.output s!"could not remove the scratch checkout: {e}"]
    let said := round.2 ++ delivery.2 ++ discarded
    (job.conclude world said round.1 delivery.1, said)

/-- The events the job appends, stamped. -/
def events : List Event := eventsOf (stampedBy world.clock (job.run world).2)

end ReadyJob

/-- The exit code of `assembly run`. -/
def exitCodeFor : Verdict → ℕ
  | .failed => 1
  | .passed => 0

/-! ## When a stage succeeds -/

section Succeeding

variable {world : RoundWorld} {payload : RoundPayload}

lemma supervise_fst_iff (describedAs : String) (run : CommandRun) :
    (supervise describedAs run).1 = .ok (.exited 0) ↔ run.Succeeded := by
  unfold CommandRun.Succeeded
  constructor
  · intro h
    cases run with
    | unspawnable e => cases h
    | ran printed ended =>
        cases ended with
        | waited status =>
            cases status with
            | exited code =>
                obtain rfl : code = 0 := by simpa [supervise, ExitStatus.code] using h
                exact ⟨printed, rfl⟩
            -- A process killed by a signal has no code, and `-1` stands in for it.
            | signaled => simp [supervise, ExitStatus.code] at h
        | waitFailed e => cases h
        | deadline => cases h
        | cancelled => cases h
  · rintro ⟨printed, rfl⟩
    rfl

lemma failureReason_eq_none_iff {outcome : ShellOutcome} :
    outcome.failureReason = none ↔ outcome = .exited 0 := by
  cases outcome <;> simp [ShellOutcome.failureReason]

lemma agentFailureReason_eq_none_iff (describedAs : String) (run : CommandRun) :
    agentFailureReason (supervise describedAs run).1 = none ↔ run.Succeeded := by
  rw [← supervise_fst_iff describedAs]
  cases (supervise describedAs run).1 with
  | error e => simp [agentFailureReason]
  | ok outcome => simp [agentFailureReason, failureReason_eq_none_iff]

lemma VerifyRuling.ofOutcome_eq_noObjection_iff {outcome : Except String ShellOutcome} :
    VerifyRuling.ofOutcome outcome = .noObjection ↔ outcome = .ok (.exited 0) := by
  rcases outcome with e | ⟨code⟩ | _ | _ <;> simp [VerifyRuling.ofOutcome]

/-- `verify` is absent, or exited 0. -/
def RoundWorld.Verifies (world : RoundWorld) (payload : RoundPayload) : Prop :=
  payload.verify.isSome → world.verify.Succeeded

lemma verifyRuling_fst_iff :
    (verifyRuling world payload).1 = .noObjection ↔ world.Verifies payload := by
  unfold verifyRuling RoundWorld.Verifies
  cases payload.verify with
  | none => simp
  | some command => simp [VerifyRuling.ofOutcome_eq_noObjection_iff, supervise_fst_iff]

/-- Every step of provisioning has some budget left, and exits 0. -/
def RoundWorld.Provisions (world : RoundWorld) (payload : RoundPayload) : Prop :=
  payload.provisionToolchain = true → ∀ args ∈ RoundWorld.provisioningSteps,
    (world.provisioning args).remaining ≠ 0 ∧ (world.provisioning args).run.Succeeded

lemma RoundWorld.afterProvisioning_iff {args : List String} {outcome : ShellOutcome} :
    afterProvisioning args outcome = .ok () ↔ outcome = .exited 0 := by
  unfold afterProvisioning
  rw [← failureReason_eq_none_iff]
  cases hreason : outcome.failureReason with
  | none => simp
  | some reason => cases outcome <;> simp

lemma RoundWorld.provisioned_iff (world : RoundWorld) (args : List String) :
    (world.provisioningRan args).1.bind (afterProvisioning args) = .ok () ↔
      (world.provisioning args).remaining ≠ 0 ∧ (world.provisioning args).run.Succeeded := by
  unfold provisioningRan
  by_cases hleft : (world.provisioning args).remaining = 0
  · simp [hleft, Except.bind, afterProvisioning_iff]
  · rw [if_neg hleft, ← supervise_fst_iff "mise"]
    cases (supervise "mise" (world.provisioning args).run).1 with
    | error e => simp [Except.bind]
    | ok outcome => simp [Except.bind, hleft, afterProvisioning_iff]

lemma RoundWorld.provisionFrom_fst_iff (world : RoundWorld) (steps : List (List String)) :
    (world.provisionFrom steps).1 = .ok () ↔ ∀ args ∈ steps,
      (world.provisioning args).remaining ≠ 0 ∧ (world.provisioning args).run.Succeeded := by
  induction steps with
  | nil => simp [provisionFrom]
  | cons args steps ih =>
      rw [List.forall_mem_cons, ← ih, ← world.provisioned_iff args]
      simp only [provisionFrom]
      cases (world.provisioningRan args).1.bind (afterProvisioning args) <;> simp

lemma RoundWorld.provisionToolchain_fst_iff :
    (world.provisionToolchain payload).1 = .ok () ↔ world.Provisions payload := by
  unfold provisionToolchain Provisions
  by_cases hasks : payload.provisionToolchain = true
  · simp only [hasks, if_true, forall_const]
    exact world.provisionFrom_fst_iff provisioningSteps
  · simp [hasks]

lemma RoundWorld.publishFrom_iff (world : RoundWorld) (branch : String)
    (lastFailure : Option String) (attempts : List ℕ) :
    world.publishFrom branch lastFailure attempts = .ok () ↔
      ∃ attempt ∈ attempts, world.pushHead attempt = .ok () := by
  induction attempts generalizing lastFailure with
  | nil => simp [publishFrom]
  | cons attempt attempts ih =>
      unfold publishFrom
      cases hpush : world.pushHead attempt with
      | error e => simp [ih, hpush]
      | ok pushed => simp [hpush]

/-- One of the attempts at the push goes through. -/
lemma RoundWorld.publish_iff (world : RoundWorld) (branch : String) :
    world.publish branch = .ok () ↔ ∃ attempt < 3, world.pushHead attempt = .ok () := by
  unfold publish
  rw [world.publishFrom_iff]
  simp [pushBackoff]

/-- None of the commit, the diff stat and the push fails; the last two only come to pass when the
round made something. -/
def RoundWorld.Preserves (world : RoundWorld) : Prop :=
  ∃ made, world.commit = .ok made ∧ (made.isSome →
    (∃ stat, world.diffStat = .ok stat) ∧ ∃ attempt < 3, world.pushHead attempt = .ok ())

lemma agentWorkOnBranch_iff :
    (∃ work, agentWorkOnBranch world payload = .ok work) ↔ world.Preserves := by
  unfold agentWorkOnBranch RoundWorld.Preserves
  cases world.commit with
  | error e => simp
  | ok made =>
      cases made with
      | none => simp
      | some sha =>
          cases world.diffStat with
          | error e => simp
          | ok stat =>
              simp only [Except.ok.injEq, exists_eq_left', Option.isSome_some, forall_const,
                exists_eq', true_and, ← world.publish_iff payload.branch]
              cases world.publish payload.branch <;> simp [Except.map]

/-- Work is recorded once it is on the remote. -/
lemma pushed_of_agentWorkOnBranch {work : AgentWork}
    (h : agentWorkOnBranch world payload = .ok (some work)) :
    ∃ attempt < 3, world.pushHead attempt = .ok () := by
  unfold agentWorkOnBranch at h
  split at h
  · cases h
  · cases h
  · split at h
    · cases h
    · rw [← world.publish_iff payload.branch]
      cases hpublish : world.publish payload.branch with
      | error e =>
          rw [hpublish] at h
          cases h
      | ok pushed => rfl

end Succeeding

/-! ## The result of a round -/

/-- The work a result carries. -/
def RoundResult.work : RoundResult → Option AgentWork
  | .passedUnchanged => none
  | .passedWithWork work => some work
  | .rejected _ work => work
  | .failed _ work => work

section Results

variable {world : RoundWorld} {payload : RoundPayload}

/-- A completion is its work, then perhaps a rejection, then its verdict. -/
lemma eventsForCompletion_parts (result : RoundResult) :
    ∃ rejected verdict,
      (eventsForCompletion result).1 = workRecorded result.work ++ rejected ++ [verdict] ∧
      (rejected = [] ∨ ∃ reason, rejected = [.verifyRejected reason]) ∧
      verdict.verdict = some (eventsForCompletion result).2 := by
  cases result with
  | passedUnchanged => exact ⟨[], .roundPassed, rfl, .inl rfl, rfl⟩
  | passedWithWork work => exact ⟨[], .roundPassed, rfl, .inl rfl, rfl⟩
  | rejected reason work =>
      refine ⟨[.verifyRejected reason], .roundFailed s!"verify rejected the work: {reason}", ?_,
        .inr ⟨reason, rfl⟩, rfl⟩
      simp [eventsForCompletion, RoundResult.work]
  | failed reason work =>
      refine ⟨[], .roundFailed reason, ?_, .inl rfl, rfl⟩
      simp [eventsForCompletion, RoundResult.work]

lemma work_roundResult (agentFailure : Option String) (ruling : VerifyRuling)
    (work : Option AgentWork) : (roundResult agentFailure ruling work).work = work := by
  cases agentFailure with
  | some reason => rfl
  | none =>
      cases ruling with
      | noObjection => cases work <;> rfl
      | rejected reason => rfl
      | interrupted reason => rfl

lemma verdict_roundResult_iff (agentFailure : Option String) (ruling : VerifyRuling)
    (work : Option AgentWork) :
    (eventsForCompletion (roundResult agentFailure ruling work)).2 = .passed ↔
      agentFailure = none ∧ ruling = .noObjection := by
  cases agentFailure with
  | some reason => simp [roundResult, eventsForCompletion]
  | none => cases ruling <;> cases work <;> simp [roundResult, eventsForCompletion]

lemma roundResultIn_eq : roundResultIn world payload =
    match (world.provisionToolchain payload).1, agentWorkOnBranch world payload with
    | .error e, _ => .failed e none
    | .ok _, .error e => .failed e none
    | .ok _, .ok work =>
      roundResult (agentFailure world payload) (rulingOnAgent world payload).1 work := by
  unfold roundResultIn resultInWorkspace
  dsimp only
  cases (world.provisionToolchain payload).1 with
  | error e => rfl
  | ok installed => cases agentWorkOnBranch world payload <;> rfl

/-- A result carries only work that is on the remote. -/
lemma pushed_of_work {work : AgentWork} (h : (roundResultIn world payload).work = some work) :
    ∃ attempt < 3, world.pushHead attempt = .ok () := by
  rw [roundResultIn_eq] at h
  split at h
  · cases h
  · cases h
  · rename_i made _ hpreserved
    rw [work_roundResult] at h
    exact pushed_of_agentWorkOnBranch (h ▸ hpreserved)

/-- **What a round passes on**: provisioning, the agent, its work kept, and `verify`. -/
theorem verdict_roundResultIn_iff :
    (eventsForCompletion (roundResultIn world payload)).2 = .passed ↔
      world.Provisions payload ∧ world.agent.Succeeded ∧ world.Preserves ∧
        world.Verifies payload := by
  have hagent : agentFailure world payload = none ↔ world.agent.Succeeded :=
    agentFailureReason_eq_none_iff _ _
  have hkept : (∃ work, agentWorkOnBranch world payload = .ok work) ↔ world.Preserves :=
    agentWorkOnBranch_iff
  rw [← RoundWorld.provisionToolchain_fst_iff, ← hagent, ← hkept, ← verifyRuling_fst_iff,
    roundResultIn_eq]
  cases (world.provisionToolchain payload).1 with
  | error e => simp [eventsForCompletion]
  | ok installed =>
      cases agentWorkOnBranch world payload with
      | error e => simp [eventsForCompletion]
      | ok made =>
          simp only [verdict_roundResult_iff, rulingOnAgent]
          cases agentFailure world payload <;> simp

end Results

/-! ## What a round appends -/

section Appends

variable {world : RoundWorld} {payload : RoundPayload}

@[simp] lemma kindsOf_append (said more : List Appended) :
    kindsOf (said ++ more) = kindsOf said ++ kindsOf more :=
  List.filterMap_append

@[simp] lemma kindsOf_events (kinds : List EventKind) : kindsOf (kinds.map .event) = kinds := by
  simp [kindsOf, List.filterMap_map]

@[simp] lemma kindsOf_outputs (lines : List String) : kindsOf (lines.map .output) = [] := by
  simp [kindsOf, List.filterMap_map]

lemma kindsOf_supervise (describedAs : String) (run : CommandRun) :
    kindsOf (supervise describedAs run).2 = [] := by
  cases run with
  | unspawnable e => rfl
  | ran printed ended => exact kindsOf_outputs printed

lemma kindsOf_provisionFrom (steps : List (List String)) :
    kindsOf (world.provisionFrom steps).2 = [] := by
  induction steps with
  | nil => rfl
  | cons args steps ih =>
      have hran : kindsOf (world.provisioningRan args).2 = [] := by
        unfold RoundWorld.provisioningRan
        dsimp only
        split
        · rfl
        · exact kindsOf_supervise _ _
      simp only [RoundWorld.provisionFrom]
      split
      · exact hran
      · rw [kindsOf_append, hran, ih, List.append_nil]

/-- Before its completion a round appends output only. -/
lemma kindsOf_resultInWorkspace : kindsOf (resultInWorkspace world payload).2 = [] := by
  have hprovisioned : kindsOf (world.provisionToolchain payload).2 = [] := by
    unfold RoundWorld.provisionToolchain
    split
    · exact kindsOf_provisionFrom _
    · rfl
  have hverified : kindsOf (verifyRuling world payload).2 = [] := by
    unfold verifyRuling
    cases payload.verify with
    | none => rfl
    | some command => exact kindsOf_supervise _ _
  have hruling : kindsOf (rulingOnAgent world payload).2 = [] := by
    unfold rulingOnAgent
    cases agentFailure world payload with
    | none => exact hverified
    | some reason => rfl
  unfold resultInWorkspace
  dsimp only
  cases (world.provisionToolchain payload).1 with
  | error e => exact hprovisioned
  | ok installed => simp only [kindsOf_append, hprovisioned, kindsOf_supervise, hruling,
      List.append_nil]

lemma kindsOf_runRoundIn : kindsOf (runRoundIn world payload).2 =
    (eventsForCompletion (roundResultIn world payload)).1 := by
  simp [runRoundIn, kindsOf_resultInWorkspace]

namespace ReadyJob

variable (job : ReadyJob) (world : RoundWorld)

lemma kindsOf_deliver : kindsOf (job.deliver world).2 = (job.delivered world).event.toList := by
  unfold deliver
  cases hevent : (job.delivered world).event <;> simp [kindsOf]

/-- What starting the round comes to, and then how the round ended. -/
def workspaceResult : Except String RoundResult :=
  world.startRound.map fun _ => roundResultIn world job.payload

/-- A job's events are those of its result, and of its delivery. -/
theorem kindsOf_run : kindsOf (job.run world).2 =
    readyJobRun (job.workspaceResult world)
      (job.branchCarriesWork world (runRoundIn world job.payload).2) (job.delivered world) := by
  unfold run workspaceResult
  cases world.startRound with
  | error e => rfl
  | ok started =>
      have hdiscarded : ∀ discarded : Except String Unit, kindsOf (match discarded with
          | .ok _ => []
          | .error e => [Appended.output s!"could not remove the scratch checkout: {e}"]) = [] := by
        intro discarded
        cases discarded <;> rfl
      simp only [Except.map, readyJobRun, kindsOf_append, kindsOf_runRoundIn, hdiscarded,
        List.append_nil]
      have hverdict : (runRoundIn world job.payload).1 =
          (eventsForCompletion (roundResultIn world job.payload)).2 := rfl
      rw [hverdict]
      cases (eventsForCompletion (roundResultIn world job.payload)).2 with
      | failed => rfl
      | passed =>
          cases job.branchCarriesWork world (runRoundIn world job.payload).2 with
          | false => rfl
          | true =>
              dsimp only
              rw [if_pos rfl, job.kindsOf_deliver]

/-- The verdict a job concludes with. -/
lemma verdict_run : (job.run world).1.verdict = match job.workspaceResult world with
    | .error _ => .failed
    | .ok result => (eventsForCompletion result).2 := by
  unfold run workspaceResult
  cases world.startRound <;> rfl

end ReadyJob

end Appends

/-! ## What its readers make of it -/

section Readings

variable {events : List Event} {before after : List EventKind} {verdict : EventKind} {v : Verdict}

lemma map_kind_stampedBy (clock : ℕ → Instant) (said : List Appended) :
    (eventsOf (stampedBy clock said)).map Event.kind = kindsOf said := by
  unfold stampedBy
  induction said generalizing clock with
  | nil => rfl
  | cons appended said ih =>
      have hrest := ih fun n => clock (n + 1)
      cases appended with
      | event kind =>
          rw [List.mapIdx_cons, show kindsOf (.event kind :: said) = kind :: kindsOf said from rfl,
            ← hrest]
          rfl
      | output line =>
          rw [List.mapIdx_cons, show kindsOf (.output line :: said) = kindsOf said from rfl,
            ← hrest]
          rfl

/-- Nothing after a verdict is one. -/
lemma verdictOf_of_kinds (hkinds : events.map Event.kind = before ++ verdict :: after)
    (hverdict : verdict.verdict = some v) (hafter : ∀ kind ∈ after, kind.verdict = none) :
    verdictOf events = v := by
  have hfound : verdictOf events =
      ((events.map Event.kind).reverse.findSome? EventKind.verdict).getD .failed := by
    rw [verdictOf, ← List.map_reverse, List.findSome?_map]
    rfl
  have hnone : after.reverse.findSome? EventKind.verdict = none := by
    rw [List.findSome?_eq_none_iff]
    intro kind hkind
    exact hafter kind (List.mem_reverse.mp hkind)
  rw [hfound, hkinds, List.reverse_append, List.reverse_cons, List.append_assoc,
    List.findSome?_append, hnone, Option.none_or, List.singleton_append, List.findSome?_cons,
    hverdict, Option.getD_some]

lemma any_verdict_of_kinds (hkinds : events.map Event.kind = before ++ verdict :: after)
    (hverdict : verdict.verdict = some v) :
    events.any (fun e => e.kind.verdict.isSome) = true := by
  have hmem : verdict ∈ events.map Event.kind := by simp [hkinds]
  obtain ⟨e, he, rfl⟩ := List.mem_map.mp hmem
  exact List.any_eq_true.mpr ⟨e, he, by rw [hverdict]; rfl⟩

end Readings

namespace ReadyJob

variable (job : ReadyJob) (world : RoundWorld)

/-- What a job appends, in the order things settled. -/
lemma kinds_events_parts : ∃ work rejected verdict opened,
    (job.events world).map Event.kind = work ++ rejected ++ [verdict] ++ opened ∧
      (work = [] ∨
        (∃ sha files insertions deletions branch remote,
          work = [.roundCommitted sha files insertions deletions, .branchPushed branch remote]) ∧
        ∃ attempt < 3, world.pushHead attempt = .ok ()) ∧
      (rejected = [] ∨ ∃ reason, rejected = [.verifyRejected reason]) ∧
      verdict.verdict = some (job.run world).1.verdict ∧
      (opened = [] ∨ verdict = .roundPassed ∧ ∃ url, opened = [.pullRequestOpened url]) := by
  rw [events, map_kind_stampedBy, kindsOf_run, verdict_run]
  cases hworkspace : job.workspaceResult world with
  | error e => exact ⟨[], [], .roundFailed e, [], rfl, .inl rfl, .inl rfl, rfl, .inl rfl⟩
  | ok result =>
      have hresult : result = roundResultIn world job.payload := by
        unfold workspaceResult at hworkspace
        cases hstarted : world.startRound with
        | error e =>
            rw [hstarted] at hworkspace
            cases hworkspace
        | ok started =>
            rw [hstarted] at hworkspace
            exact (Except.ok.inj hworkspace).symm
      obtain ⟨rejected, verdict, hevents, hrejected, hverdict⟩ := eventsForCompletion_parts result
      simp only [readyJobRun, hevents]
      refine ⟨workRecorded result.work, rejected, verdict, _, rfl, ?_, hrejected, hverdict, ?_⟩
      · cases hwork : result.work with
        | none => exact .inl rfl
        | some work => exact .inr ⟨⟨_, _, _, _, _, _, rfl⟩, pushed_of_work (hresult ▸ hwork)⟩
      · split
        · rename_i hpassed _
          rw [hpassed] at hverdict
          have hevent : verdict = .roundPassed := by
            cases verdict <;> simp [EventKind.verdict] at hverdict ⊢
          cases job.delivered world with
          | skipped why => exact .inl rfl
          | pushed branch because => exact .inl rfl
          | opened url => exact .inr ⟨hevent, url, rfl⟩
          | alreadyOpen url => exact .inr ⟨hevent, url, rfl⟩
        · exact .inl rfl
        · exact .inl rfl

lemma report_run :
    (job.run world).1.report = JobReport.fromEvents job.payload.jobId (job.events world) := by
  unfold events run
  cases world.startRound <;> rfl

/-- A job appends only what a round prints. -/
lemma isPrinted_events : ∀ e ∈ job.events world, e.kind.isPrinted = true := by
  obtain ⟨work, rejected, verdict, opened, hkinds, hwork, hrejected, hverdict, hopened⟩ :=
    job.kinds_events_parts world
  intro e he
  have hmem : e.kind ∈ (job.events world).map Event.kind := List.mem_map_of_mem he
  rw [hkinds, List.mem_append, List.mem_append, List.mem_append, List.mem_singleton] at hmem
  rcases hmem with ((hkind | hkind) | hkind) | hkind
  · rcases hwork with rfl | ⟨⟨sha, files, insertions, deletions, branch, remote, rfl⟩, -⟩
    · cases hkind
    · simp only [List.mem_cons, List.not_mem_nil, or_false] at hkind
      rcases hkind with hkind | hkind <;> rw [hkind] <;> rfl
  · rcases hrejected with rfl | ⟨reason, rfl⟩
    · cases hkind
    · rw [List.mem_singleton.mp hkind]
      rfl
  · rw [hkind]
    cases verdict <;> simp [EventKind.verdict] at hverdict <;> rfl
  · rcases hopened with rfl | ⟨-, url, rfl⟩
    · cases hkind
    · rw [List.mem_singleton.mp hkind]
      rfl

end ReadyJob

/-- **What a round emits agrees with its verdict.**  Whatever the stages of a job come to, it
appends its work, recorded only when it is on the remote, then perhaps a rejection, then one
verdict, and a pull request only after a `RoundPassed`.  The fold of those events, the collector's
`verdictOf` and the exit code all draw the verdict returned, which is a pass exactly when every
stage went well. -/
theorem round_agrees_with_its_verdict (job : ReadyJob) (world : RoundWorld) (termination : String) :
    (∃ work rejected verdict opened,
        (job.events world).map Event.kind = work ++ rejected ++ [verdict] ++ opened ∧
        (work = [] ∨
          (∃ sha files insertions deletions branch remote,
            work = [.roundCommitted sha files insertions deletions, .branchPushed branch remote]) ∧
          ∃ attempt < 3, world.pushHead attempt = .ok ()) ∧
        (rejected = [] ∨ ∃ reason, rejected = [.verifyRejected reason]) ∧
        verdict.verdict = some (job.run world).1.verdict ∧
        (opened = [] ∨ verdict = .roundPassed ∧ ∃ url, opened = [.pullRequestOpened url])) ∧
      (job.run world).1.report = JobReport.fromEvents job.payload.jobId (job.events world) ∧
      (job.run world).1.report.state = (job.run world).1.verdict.state ∧
      verdictOf (job.events world) = (job.run world).1.verdict ∧
      verdictMissingFrom (job.events world) termination = none ∧
      (exitCodeFor (job.run world).1.verdict = 0 ↔ (job.run world).1.verdict = .passed) ∧
      ((job.run world).1.verdict = .passed ↔
        world.startRound = .ok () ∧ world.Provisions job.payload ∧ world.agent.Succeeded ∧
          world.Preserves ∧ world.Verifies job.payload) := by
  obtain ⟨work, rejected, verdict, opened, hkinds, hwork, hrejected, hverdict, hopened⟩ :=
    job.kinds_events_parts world
  have hsplit : (job.events world).map Event.kind = (work ++ rejected) ++ verdict :: opened := by
    rw [hkinds, List.append_assoc, List.singleton_append]
  have hread : verdictOf (job.events world) = (job.run world).1.verdict := by
    refine verdictOf_of_kinds hsplit hverdict ?_
    rintro kind hkind
    rcases hopened with rfl | ⟨-, url, rfl⟩
    · cases hkind
    · rw [List.mem_singleton.mp hkind]
      rfl
  have hany := any_verdict_of_kinds hsplit hverdict
  refine ⟨⟨work, rejected, verdict, opened, hkinds, hwork, hrejected, hverdict, hopened⟩,
    job.report_run world, ?_, hread, ?_, ?_, ?_⟩
  · have hstate := state_append_printed [] (job.isPrinted_events world)
    rw [List.nil_append, if_pos hany, hread] at hstate
    rw [job.report_run world, JobReport.fromEvents_state, hstate]
  · rw [verdictMissingFrom, hany]
    rfl
  · cases (job.run world).1.verdict <;> simp [exitCodeFor]
  · rw [job.verdict_run world, ReadyJob.workspaceResult]
    cases world.startRound with
    | error e => simp [Except.map]
    | ok started => simp only [Except.map, verdict_roundResultIn_iff, true_and]

end AssemblyLine
