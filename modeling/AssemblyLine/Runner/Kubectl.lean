import AssemblyLine.Framework.Calls
import AssemblyLine.Framework.Json
import AssemblyLine.Runner.Launch
import AssemblyLine.Runner.Reconnect
import AssemblyLine.Runner.Secrets
import Mathlib.Data.List.ReduceOption
import Mathlib.Data.List.Sort

/-!
# A round as a Kubernetes Job

What `KubernetesRunner` asks of `kubectl`, call by call: `launch` creates the Job, then its Secret,
waits for the pod to start and follows its log; `reattach` finds a launched round again;
`termination` reads why the pod stopped, and deletes.  A program is given the answers to its calls
and goes on with them, so that it can be run against any cluster, and cut off after any call.

How the documents are written that it is given, and read that it prints, is a parameter.

What is not a call of `kubectl` is one of the clock, of a pause, or of the token that cancels a
launch.  The clock of a wait is read as how much later it is than is already known, so that a wait
has only as many turns as its deadline allows.
-/

namespace AssemblyLine

/-! ## The pod's status -/

/-- Whether a condition says that the pod was not scheduled. -/
def isUnscheduled (condition : Json) : Bool :=
  (condition.get "type").bind Json.asText = some "PodScheduled" ∧
    (condition.get "status").bind Json.asText = some "False"

/-- Why an unscheduled pod is stuck.  It has no container to wait on; the reason is on its
`PodScheduled` condition instead. -/
def unscheduledReason (pod : Json) : Option String :=
  (((pod.pointer ["status", "conditions"]).bind Json.asItems).bind
      fun conditions => conditions.find? isUnscheduled).map
    fun c =>
      ((c.get "reason").bind Json.asText).getD "Unschedulable" ++
        (": " ++ ((c.get "message").bind Json.asText).getD "")

/-- An exit code, as an `i32` holds it. -/
def exitCodeOf (terminated : Json) : ℤ :=
  (((terminated.get "exitCode").bind Json.asInt).filter
    fun code => -2147483648 ≤ code ∧ code ≤ 2147483647).getD (-1)

/-- Where the Job's pod stands, read from `kubectl get pods -o json`. -/
def podProgress (pods : Json) : PodProgress :=
  match pods.pointer ["items", "0"] with
  | none => .gone
  | some pod =>
    let name := (pod.textAt ["metadata", "name"]).getD ""
    let phase := (pod.textAt ["status", "phase"]).getD "Pending"
    let state := pod.pointer ["status", "containerStatuses", "0", "state"]
    match state.bind (Json.get "terminated") with
    | some terminated =>
      -- "Completed" and "Error" only restate the exit code.
      .finished name (exitCodeOf terminated)
        (((terminated.get "reason").bind Json.asText).filter
          fun reason => reason ≠ "Completed" ∧ reason ≠ "Error")
    | none =>
      if phase = "Failed" then
        .finished name (-1) (some ((pod.textAt ["status", "reason"]).getD "the pod failed"))
      else if phase = "Running" then .running name
      else
        .waiting (((state.bind fun state => state.textAt ["waiting", "reason"]).orElse
          fun _ => unscheduledReason pod).getD phase)

/-! ## What is created -/

/-- How long a finished Job lingers for inspection if its own cleanup fails. -/
def ttlAfterFinishedSecs : ℕ := 3600

/-- A Job that runs `assembly` with `args` once, never retried, with its environment read from the
Secret of the same name.  Like every document here, it has its names in order. -/
def jobManifest (name image : String) (args : List String) (activeDeadlineSecs : Option ℕ) :
    Json :=
  .object [
    ("apiVersion", .string "batch/v1"),
    ("kind", .string "Job"),
    ("metadata", .object [("name", .string name)]),
    ("spec", .object (
      (activeDeadlineSecs.map fun secs =>
        ("activeDeadlineSeconds", Json.int secs)).toList ++ [
      ("backoffLimit", .int 0),
      ("template", .object [
        ("spec", .object [
          -- Nothing in a round talks to the cluster.
          ("automountServiceAccountToken", .bool false),
          ("containers", .array [.object [
            ("command", .array (("assembly" :: args).map .string)),
            ("envFrom", .array [.object [("secretRef", .object [("name", .string name)])]]),
            ("image", .string image),
            ("name", .string "job")]]),
          ("restartPolicy", .string "Never")])]),
      ("ttlSecondsAfterFinished", .int ttlAfterFinishedSecs)]))]

/-- The variables, ordered by their names. -/
def JobSecrets.sorted (secrets : JobSecrets) : List (String × String) :=
  secrets.vars.insertionSort fun a b => a.1 ≤ b.1

/-- A Secret owned by the Job whose uid is `jobUid`, so it is deleted with it. -/
def secretManifest (name jobUid : String) (secrets : JobSecrets) : Json :=
  .object [
    ("apiVersion", .string "v1"),
    ("kind", .string "Secret"),
    ("metadata", .object [
      ("name", .string name),
      ("ownerReferences", .array [.object [
        ("apiVersion", .string "batch/v1"),
        ("kind", .string "Job"),
        ("name", .string name),
        ("uid", .string jobUid)]])]),
    ("stringData", .object (secrets.sorted.map fun var => (var.1, .string var.2))),
    ("type", .string "Opaque")]

/-! ## Calls -/

/-- What a round calls on. -/
inductive KubectlCall
  /-- Run `kubectl` to its end, with what it is given on its standard input. -/
  | output (args : List String)
  /-- Start `kubectl`, to read its lines. -/
  | spawn (args : List String)
  /-- The clock. -/
  | now
  /-- How much later it is than was known. -/
  | later
  /-- Pause for the poll interval. -/
  | sleep
  /-- Ask whether a cancel is asked for. -/
  | isCancelled
deriving DecidableEq, Repr

/-- What became of a command that was to be run to its end. -/
inductive CommandAnswer
  | unspawnable (error : String)
  /-- Its pipes fail, or the wait for it does. -/
  | broken (error : String)
  | ended (success : Bool) (stdout stderr : List UInt8)
deriving DecidableEq, Repr

/-- A command that ended and said that it succeeded. -/
def CommandAnswer.succeeded : CommandAnswer → Bool
  | .ended success _ _ => success
  | _ => false

/-- What a call is answered with. -/
@[reducible] def KubectlCall.Answer : KubectlCall → Type
  | .output _ => CommandAnswer
  | .spawn _ => Except String Unit
  | .now => Instant
  | .later => ℕ
  | .sleep => Unit
  | .isCancelled => Bool

/-- A program that calls on `kubectl`; a command may be given a text on its standard input. -/
abbrev Kubectl (α : Type) : Type := Calls KubectlCall KubectlCall.Answer (Option String) α

structure KubernetesRunner where
  /-- `kubectl`, or a stand-in. -/
  program : String
  image : String
  /-- Where every Job and Secret is created. -/
  kubernetesNamespace : String
  /-- `kubectl`'s current context when `none`. -/
  context : Option String
  schedulingDeadline : ℕ
  pollInterval : ℕ
  /-- A pause takes some time. -/
  pauses : 0 < pollInterval

/-- The pod of a Job, with the stream of its log. -/
structure FollowedJob where
  pod : String
  stream : PodStream
deriving DecidableEq, Repr

namespace KubernetesRunner

variable (runner : KubernetesRunner) (json : JsonText)

/-- Arguments, after those that pin `kubectl` to this runner's context and namespace. -/
def kubectl (args : List String) : List String :=
  (runner.context.map fun context => ["--context", context]).getD [] ++
    ("--namespace" :: runner.kubernetesNamespace :: args)

/-- What a command printed, unless it failed. -/
def printed : CommandAnswer → Except String String
  | .unspawnable e => .error s!"spawning `{runner.program}`: {e}"
  | .broken e => .error e
  | .ended true stdout _ => .ok (fromUtf8Lossy stdout)
  | .ended false _ stderr => .error s!"kubectl failed: {trim (fromUtf8Lossy stderr)}"

def outputOf (args : List String) (stdin : Option String) : Kubectl (Except String String) :=
  .call (.output (runner.kubectl args)) stdin fun answer => .done (runner.printed answer)

/-- A document that a command printed. -/
def jsonOf (args : List String) (stdin : Option String) : Kubectl (Except String Json) :=
  (runner.outputOf args stdin).tryBind fun text => .done (json.read text)

/-- The arguments that create what is given on the standard input.  `create`, not `apply`, which
would copy a Secret's values into an annotation. -/
def createArgs : List String := ["create", "-f", "-"]

def deleteArgs (kind name : String) : List String :=
  ["delete", kind, name, "--ignore-not-found", "--wait=false"]

def progressArgs (name : String) : List String :=
  ["get", "pods", "-l", s!"job-name={name}", "-o", "json"]

/-- The pod's log from the last timestamp read, or the whole log before any, followed as it grows
when `follow` is set. -/
def logsArgs (pod : String) (follow : Bool) (position : LogReadPosition) : List String :=
  ["logs", "--timestamps", s!"pod/{pod}"] ++ (if follow then ["-f"] else []) ++
    (position.resumeFrom.map fun since => s!"--since-time={since}").toList

/-! ## Before the daemon listens -/

/-- What is asked for up front, as verbs and resources. -/
def permissionsAsked : List (String × String) :=
  [("create", "jobs"), ("create", "secrets"), ("list", "pods"), ("get", "pods/log"),
    ("delete", "jobs"), ("delete", "secrets")]

/-- Why this runner may not do something in its namespace, by what `kubectl auth can-i` printed; an
error when it gave no answer.  It prints `no` and exits 1, so the answer is read before the exit
status means anything. -/
def reasonItMayNot (permission : String × String) :
    CommandAnswer → Except RunnerProblem (Option RunnerProblem)
  | .unspawnable e => .error (.unreachable "kubectl" e)
  | .broken e => .error (.unreachable "kubectl" e)
  | .ended _ stdout stderr =>
    let answer := trim (fromUtf8Lossy stdout)
    if answer = "yes" then .ok none
    else if startsWith "no" answer then
      .ok (some (.notPermitted permission.1 permission.2 runner.kubernetesNamespace))
    else .error (.unreachable "kubectl" (trim (fromUtf8Lossy stderr)))

/-- All problems that were found.  An unreachable `kubectl` is one problem. -/
def problemsIn : Except RunnerProblem (List (Option RunnerProblem)) → List RunnerProblem
  | .error unreachable => [unreachable]
  | .ok missing => missing.reduceOption

/-- Every reason this runner cannot launch a round, by the answers to what is asked. -/
def reasonsItCannotRun (answers : String × String → CommandAnswer) : List RunnerProblem :=
  problemsIn (permissionsAsked.mapM fun permission =>
    runner.reasonItMayNot permission (answers permission))

/-- `kubectl` said that this may be done. -/
def permits : CommandAnswer → Bool
  | .ended _ stdout _ => trim (fromUtf8Lossy stdout) = "yes"
  | _ => false

lemma reasonItMayNot_eq_ok_none_iff (permission : String × String) (answer : CommandAnswer) :
    runner.reasonItMayNot permission answer = .ok none ↔ permits answer = true := by
  cases answer with
  | unspawnable e => simp [reasonItMayNot, permits]
  | broken e => simp [reasonItMayNot, permits]
  | ended success stdout stderr =>
      simp only [reasonItMayNot, permits, decide_eq_true_eq]
      split
      · simp_all
      · split <;> simp_all

lemma problemsIn_eq_nil_iff (asks : String × String → Except RunnerProblem (Option RunnerProblem))
    (asked : List (String × String)) :
    problemsIn (asked.mapM asks) = [] ↔ ∀ permission ∈ asked, asks permission = .ok none := by
  induction asked with
  | nil => simp [problemsIn, pure, Except.pure]
  | cons permission asked ih =>
      rw [List.mapM_cons, List.forall_mem_cons, ← ih]
      rcases asks permission with e | _ | missing
      · simp [problemsIn, bind, Except.bind]
      · cases asked.mapM asks <;> simp [problemsIn, bind, Except.bind, pure, Except.pure]
      · cases asked.mapM asks <;> simp [problemsIn, bind, Except.bind, pure, Except.pure]

/-- A runner has no reason not to run exactly when it is permitted everything it asks for. -/
theorem reasonsItCannotRun_eq_nil_iff (answers : String × String → CommandAnswer) :
    runner.reasonsItCannotRun answers = [] ↔
      ∀ permission ∈ permissionsAsked, permits (answers permission) = true := by
  refine (problemsIn_eq_nil_iff _ permissionsAsked).trans ?_
  exact forall₂_congr fun permission _ =>
    runner.reasonItMayNot_eq_ok_none_iff permission (answers permission)

/-! ## Waiting for the pod -/

def progress (name : String) : Kubectl (Except String PodProgress) :=
  (runner.jsonOf json (progressArgs name) none).tryBind fun pods =>
    .done (.ok (podProgress pods))

/-- The loop of `progress_despite_blips`, with this many attempts left after the next one. -/
def attemptProgress (name : String) : ℕ → Kubectl (Except String PodProgress)
  | 0 => (runner.progress json name).bind fun
    | .ok progress => .done (.ok progress)
    | .error e => .done (.error s!"cannot read the pod's status: {e}")
  | left + 1 => (runner.progress json name).bind fun
    | .ok progress => .done (.ok progress)
    | .error _ => .call .sleep none fun _ => attemptProgress name left

/-- The pod's status, riding out a few failures in a row. -/
def progressDespiteBlips (name : String) : Kubectl (Except String PodProgress) :=
  runner.attemptProgress json name (statusAttempts - 1)

/-- Poll until the pod runs or finishes; fail with the pod's own reason at the scheduling deadline.
At least `elapsed` has gone by since the first poll. -/
def pollUntilStarted (name : String) (elapsed : ℕ) : Kubectl (Except String String) :=
  (runner.progressDespiteBlips json name).tryBind fun progress =>
    .call .later none fun (later : ℕ) =>
      match progress with
      | .running pod => .done (.ok pod)
      | .finished pod _ _ => .done (.ok pod)
      | .waiting reason =>
        if runner.schedulingDeadline ≤ elapsed + later then
          .done (.error s!"the pod never started: {reason}")
        else
          .call .sleep none fun _ => pollUntilStarted name (elapsed + later + runner.pollInterval)
      | .gone =>
        if runner.schedulingDeadline ≤ elapsed + later then
          .done (.error "the pod never started: no pod was created")
        else
          .call .sleep none fun _ => pollUntilStarted name (elapsed + later + runner.pollInterval)
termination_by runner.schedulingDeadline - elapsed
decreasing_by
  all_goals
    have := runner.pauses
    omega

/-- A program that is dropped where it is, with this outcome, once a cancel is asked for. -/
def unlessCancelled {α : Type} (dropped : α) (p : Kubectl α) : Kubectl α :=
  p.unlessAsked .isCancelled none (fun (cancelled : Bool) => cancelled) dropped

def waitUntilStarted (name : String) : Kubectl (Except String String) :=
  unlessCancelled (.error "cancelled before the pod started")
    (runner.pollUntilStarted json name 0)

/-! ## Launching -/

/-- The uid of what was created. -/
def createdUid (name : String) (created : Json) : Except String String :=
  match (created.textAt ["metadata", "uid"]).filter fun uid => uid ≠ "" with
  | some uid => .ok uid
  | none => .error s!"kubectl create returned no uid for Job {name}"

/-- Follow a pod's log from its beginning. -/
def follow (pod : String) : Kubectl (Except String FollowedJob) :=
  .call (.spawn (runner.kubectl (logsArgs pod true {}))) none fun (spawned : Except String Unit) =>
    match spawned with
    | .error e => .done (.error e)
    | .ok _ => .call .now none fun now => .done (.ok ⟨pod, .opened now⟩)

/-- Wait for the Job's pod and start following its log. -/
def startAndFollow (name : String) : Kubectl (Except String FollowedJob) :=
  (runner.waitUntilStarted json name).tryBind fun pod => runner.follow pod

/-- Create the Secret, owned by the Job whose uid was printed. -/
def createSecret (name uid : String) (secrets : JobSecrets) : Kubectl (Except String String) :=
  runner.outputOf createArgs (some (json.write (secretManifest name uid secrets)))

/-- Create the Job, whose deadline has been computed. -/
def createJob (spec : LaunchSpec) (deadline : Option ℕ) : Kubectl (Except String Json) :=
  runner.jsonOf json (createArgs ++ ["-o", "json"])
    (some (json.write (jobManifest spec.name runner.image spec.args deadline)))

/-- Create the Job and its Secret, wait for its pod, and start following its log. -/
def createAndFollow (spec : LaunchSpec) (deadline : Option ℕ) (secrets : JobSecrets) :
    Kubectl (Except String FollowedJob) :=
  (runner.createJob json spec deadline).tryBind fun created =>
    (Calls.done (createdUid spec.name created)).tryBind fun uid =>
      (runner.createSecret json spec.name uid secrets).tryBind fun _ =>
        runner.startAndFollow json spec.name

/-- Delete the Job and, explicitly too, its Secret.  Nothing to delete is not a failure worth
reporting, so the results are ignored. -/
def deleteJobAndSecret (name : String) : Kubectl Unit :=
  .call (.output (runner.kubectl (deleteArgs "job" name))) none fun _ =>
    .call (.output (runner.kubectl (deleteArgs "secret" name))) none fun _ => .done ()

/-- A launch that fails anywhere is cleaned up once. -/
def launch (spec : LaunchSpec) (deadline : Option ℕ) (secrets : JobSecrets) :
    Kubectl (Except String FollowedJob) :=
  (runner.createAndFollow json spec deadline secrets).bind fun
    | .ok launched => .done (.ok launched)
    | .error e => (runner.deleteJobAndSecret spec.name).bind fun _ => .done (.error e)

end KubernetesRunner

/-! ## A launched round -/

/-- The runner that launched a round, as `--runner` names it. -/
def RoundHandle.runnerName : RoundHandle → String
  | .localRun _ _ => "local"
  | .docker _ => "docker"
  | .kubernetes _ => "k8s"

/-- Why a daemon running this runner cannot pick a round up. -/
def RoundHandle.launchedByAnotherRunner (handle : RoundHandle) (thisRunner : String) : String :=
  s!"the round was launched by a {handle.runnerName} runner, and this daemon runs {thisRunner}" ++
    s!" — it may still be running there: stop it with the {handle.runnerName} runner's own tools, " ++
      "then submit again"

/-- Why a round's process stopped, as its runner can tell. -/
inductive Termination
  | exited (code : ℤ)
  /-- Stopped by something other than its own exit. -/
  | killed (reason : String)
deriving DecidableEq, Repr

/-- Why a round's pod stopped, by what was read of it last. -/
def terminationOf : Except String PodProgress → Termination
  | .error reason => .killed reason
  | .ok (.finished _ _ (some reason)) => .killed reason
  | .ok (.waiting reason) => .killed reason
  | .ok (.finished _ code none) => .exited code
  | .ok .gone => .killed "the pod was deleted before it finished"
  | .ok (.running _) => .killed "the log stream ended while the pod was running"

/-- What a collector does with a launched round, between its launch and its termination. -/
inductive RoundTurn
  /-- It reads on, after a follow of the log has ended, unless a cancel makes it drop that. -/
  | readOn (pod : String) (round : KubernetesRound)
  | cancel
deriving DecidableEq, Repr

namespace KubernetesRunner

variable (runner : KubernetesRunner) (json : JsonText)

/-- Find the Job's pod, a finished one too, and follow its log from the beginning. -/
def reattach (handle : RoundHandle) : Kubectl (Except String FollowedJob) :=
  match handle with
  | .kubernetes job => (runner.progressDespiteBlips json job).tryBind fun
    -- The handle was recorded once the pod had started.
    | .gone => .done (.error s!"the Job {job} has no pod any more")
    | .running pod => runner.follow pod
    | .finished pod _ _ => runner.follow pod
    | .waiting _ => (runner.pollUntilStarted json job 0).tryBind fun pod => runner.follow pod
  | handle => .done (.error (handle.launchedByAnotherRunner "k8s"))

/-- What to read next once `kubectl logs -f` has ended. -/
def streamAfterFollowEnded (name pod : String) (round : KubernetesRound) :
    Kubectl (Except Abandoned LogStream) :=
  (runner.progressDespiteBlips json name).bind fun
    | .error e => .done (.error (.failed e))
    | .ok (.running _) =>
      if fruitlessReconnectsAllowed ≤ round.fruitlessReconnects then
        .done (.error (.noOutput round.lastUnstampedLine))
      else
        .call .sleep none fun _ =>
          .call (.spawn (runner.kubectl (logsArgs pod true round.position))) none
            fun (spawned : Except String Unit) =>
              match spawned with
              | .ok _ => .done (.ok .following)
              | .error e => .done (.error (.failed e))
    | .ok (.finished _ _ _) =>
      .call (.spawn (runner.kubectl (logsArgs pod false round.position))) none
        fun (spawned : Except String Unit) =>
          match spawned with
          | .ok _ => .done (.ok .draining)
          | .error _ => .done (.ok .ended)
    | .ok (.waiting _) => .done (.ok .ended)
    | .ok .gone => .done (.ok .ended)

/-- Where the pod stands in the end, unless its stream was abandoned. -/
def lastProgress (name : String) (abandonedBecause : Option String) :
    Kubectl (Except String PodProgress) :=
  match abandonedBecause with
  | some reason => .done (.error reason)
  | none => runner.progressDespiteBlips json name

/-- Why the pod stopped; its Job and Secret are deleted, whatever was read of it. -/
def termination (name : String) (abandonedBecause : Option String) : Kubectl Termination :=
  (runner.lastProgress json name abandonedBecause).bind fun progress =>
    (runner.deleteJobAndSecret name).bind fun _ => .done (terminationOf progress)

/-! ## A round's life -/

def turn (name : String) : RoundTurn → Kubectl Unit
  | .readOn pod round => unlessCancelled ()
      ((runner.streamAfterFollowEnded json name pod round).bind fun _ => .done ())
  | .cancel => runner.deleteJobAndSecret name

/-- What is done with a round that is launched or found again, until it is settled. -/
def collected (name : String) (abandonedBecause : Option String) :
    List RoundTurn → Kubectl (Except String Termination)
  | [] => (runner.termination json name abandonedBecause).bind fun ended => .done (.ok ended)
  | first :: turns => (runner.turn json name first).bind fun _ =>
    collected name abandonedBecause turns

/-- A round, from its launch by one daemon on. -/
def launchedLife (spec : LaunchSpec) (deadline : Option ℕ) (secrets : JobSecrets)
    (turns : List RoundTurn) (abandonedBecause : Option String) :
    Kubectl (Except String Termination) :=
  (runner.launch json spec deadline secrets).tryBind fun _ =>
    runner.collected json spec.name abandonedBecause turns

/-- A round, from when a later daemon looks for it on. -/
def resumedLife (name : String) (turns : List RoundTurn) (abandonedBecause : Option String) :
    Kubectl (Except String Termination) :=
  (runner.reattach json (.kubernetes name)).tryBind fun _ =>
    runner.collected json name abandonedBecause turns

end KubernetesRunner

/-! ## What the calls come to -/

section Answered

open Calls

variable {runner : KubernetesRunner} {json : JsonText} {name pod : String} {Ω : Type}
  {acts : (c : KubectlCall) → Option String → Ω → KubectlCall.Answer c → Ω → Prop}
  {drifts : Ω → Ω → Prop} {s t : Ω}

lemma progressFrom_congr {status status' : ℕ → Except String PodProgress} {attempt left : ℕ}
    (h : ∀ n, attempt ≤ n → status n = status' n) :
    progressFrom status attempt left = progressFrom status' attempt left := by
  induction left generalizing attempt with
  | zero => rw [progressFrom, progressFrom, h attempt le_rfl]
  | succ left ih =>
      rw [progressFrom, progressFrom, h attempt le_rfl, ih fun n hn => h n (Nat.le_of_succ_le hn)]

/-- The attempts are those of a reading of the status by attempts. -/
lemma progressFrom_of_leads {out : Except String PodProgress} (attempt : ℕ) {left : ℕ}
    (leads : Leads acts drifts (runner.attemptProgress json name left) s (some out) t) :
    ∃ status, progressFrom status attempt left = out := by
  induction left generalizing attempt s with
  | zero =>
      obtain ⟨hout, -⟩ | ⟨first, m, -, hrest⟩ := leads_bind leads
      · cases hout
      · refine ⟨fun _ => first, ?_⟩
        rcases first with e | progress
        · obtain rfl := leads_done hrest
          rfl
        · obtain rfl := leads_done hrest
          rfl
  | succ left ih =>
      obtain ⟨hout, -⟩ | ⟨first, m, -, hrest⟩ := leads_bind leads
      · cases hout
      · rcases first with e | progress
        · obtain ⟨answer, u, hagain⟩ := leads_call hrest
          obtain ⟨status, hstatus⟩ := ih (attempt + 1) hagain
          refine ⟨fun n => if n ≤ attempt then .error e else status n, ?_⟩
          rw [progressFrom, if_pos le_rfl, ← hstatus]
          exact progressFrom_congr fun n hn => if_neg (Nat.not_le_of_lt hn)
        · refine ⟨fun _ => .ok progress, ?_⟩
          obtain rfl := leads_done hrest
          rfl

/-- **The calls at a follow's end come to a turn of the stream.**  Whatever is answered to them,
they return what `PodStream` makes of some reading of the status and some attempt to spawn. -/
theorem streamAfterFollowEnded_of_leads {round : KubernetesRound} {out : Except Abandoned LogStream}
    (leads : Leads acts drifts (runner.streamAfterFollowEnded json name pod round) s
      (some out) t) :
    ∃ status spawned, PodStream.streamAfterFollowEnded round status spawned = out := by
  obtain ⟨hout, -⟩ | ⟨read, m, hread, hrest⟩ := leads_bind leads
  · cases hout
  obtain ⟨status, hstatus⟩ := progressFrom_of_leads 1 hread
  have hblips : progressDespiteBlips status = read := hstatus
  rcases read with e | (_ | reason | running | ⟨finished, code, reason⟩)
  · refine ⟨status, .ok (), ?_⟩
    rw [← leads_done hrest, PodStream.streamAfterFollowEnded, hblips]
  · refine ⟨status, .ok (), ?_⟩
    rw [← leads_done hrest, PodStream.streamAfterFollowEnded, hblips]
  · refine ⟨status, .ok (), ?_⟩
    rw [← leads_done hrest, PodStream.streamAfterFollowEnded, hblips]
  · dsimp only at hrest
    split at hrest
    · rename_i hmany
      refine ⟨status, .ok (), ?_⟩
      rw [← leads_done hrest, PodStream.streamAfterFollowEnded, hblips]
      exact if_pos hmany
    · rename_i hfew
      obtain ⟨pause, u, hspawn⟩ := leads_call hrest
      obtain ⟨spawned, v, hlast⟩ := leads_call hspawn
      refine ⟨status, spawned, ?_⟩
      unfold PodStream.streamAfterFollowEnded
      rw [hblips]
      refine (if_neg hfew).trans ?_
      rcases spawned with e | spawned
      · exact leads_done hlast
      · exact leads_done hlast
  · obtain ⟨spawned, v, hlast⟩ := leads_call hrest
    refine ⟨status, spawned, ?_⟩
    unfold PodStream.streamAfterFollowEnded
    rw [hblips]
    rcases spawned with e | spawned
    · exact leads_done hlast
    · exact leads_done hlast

end Answered

open Calls in
/-- A wait makes the calls of its looks at the pod, and reads the clock and pauses between them. -/
lemma KubernetesRunner.all_pollUntilStarted {runner : KubernetesRunner}
    {json : JsonText} {name : String} {P : KubectlCall → Option String → Prop}
    (looks : (runner.progressDespiteBlips json name).All P) (later : P .later none)
    (sleep : P .sleep none) (elapsed : ℕ) :
    (runner.pollUntilStarted json name elapsed).All P := by
  induction elapsed using pollUntilStarted.induct runner with
  | case1 elapsed ih =>
      rw [pollUntilStarted]
      refine looks.tryBind fun progress => ⟨later, fun answer => ?_⟩
      cases progress with
      | running pod => trivial
      | finished pod code reason => trivial
      | waiting reason =>
          dsimp only
          split
          · trivial
          · rename_i hearly
            exact ⟨sleep, fun _ => ih answer hearly⟩
      | gone =>
          dsimp only
          split
          · trivial
          · rename_i hearly
            exact ⟨sleep, fun _ => ih answer hearly⟩

/-! ## How long a launch goes on -/

/-- What a call weighs where only runs of `kubectl` count. -/
def KubectlCall.runs : KubectlCall → ℕ
  | .output _ | .spawn _ => 1
  | .now | .later | .sleep | .isCancelled => 0

namespace KubernetesRunner

open Calls

variable {runner : KubernetesRunner} {json : JsonText} {name : String} {n : ℕ}

/-- How many times a wait may look at the pod, once this much has gone by. -/
def looksFrom (runner : KubernetesRunner) (elapsed : ℕ) : ℕ :=
  (runner.schedulingDeadline - elapsed + runner.pollInterval - 1) / runner.pollInterval + 1

/-- A further look is one of those that are left. -/
lemma looksFrom_later {elapsed later : ℕ} (h : ¬ runner.schedulingDeadline ≤ elapsed + later) :
    runner.looksFrom (elapsed + later + runner.pollInterval) + 1 ≤ runner.looksFrom elapsed := by
  have hpauses := runner.pauses
  unfold looksFrom
  by_cases hlast : runner.schedulingDeadline ≤ elapsed + later + runner.pollInterval
  · have hnone : (runner.schedulingDeadline - (elapsed + later + runner.pollInterval) +
        runner.pollInterval - 1) / runner.pollInterval = 0 := Nat.div_eq_of_lt (by omega)
    have hone : 1 ≤ (runner.schedulingDeadline - elapsed + runner.pollInterval - 1) /
        runner.pollInterval := (Nat.one_le_div_iff hpauses).mpr (by omega)
    omega
  · rw [Nat.add_le_add_iff_right, ← Nat.add_div_right _ hpauses]
    exact Nat.div_le_div_right (by omega)

lemma atMost_progress (name : String) :
    (runner.progress json name).AtMost KubectlCall.runs 1 := by
  have houtput : (runner.outputOf (progressArgs name) none).AtMost KubectlCall.runs 1 :=
    ⟨le_rfl, fun _ => trivial⟩
  exact AtMost.tryBind (m := 0) (AtMost.tryBind (m := 0) houtput fun _ => trivial) fun _ => trivial

lemma atMost_attemptProgress (name : String) (left : ℕ) :
    (runner.attemptProgress json name left).AtMost KubectlCall.runs (left + 1) := by
  induction left with
  | zero =>
      refine AtMost.bind (m := 0) (atMost_progress name) ?_
      rintro (e | progress) <;> trivial
  | succ left ih =>
      have hagain : (runner.attemptProgress json name (left + 1)).AtMost KubectlCall.runs
          (1 + (left + 1)) := by
        refine (atMost_progress name).bind ?_
        rintro (e | progress)
        · exact ⟨Nat.zero_le _, fun _ => ih⟩
        · trivial
      exact hagain.mono (by omega)

lemma atMost_pollUntilStarted (name : String) (elapsed : ℕ) :
    (runner.pollUntilStarted json name elapsed).AtMost KubectlCall.runs
      (statusAttempts * runner.looksFrom elapsed) := by
  induction elapsed using pollUntilStarted.induct runner with
  | case1 elapsed ih =>
      rw [pollUntilStarted]
      have hlooks : 0 < runner.looksFrom elapsed := Nat.succ_pos _
      have hagain : ∀ later, ¬ runner.schedulingDeadline ≤ elapsed + later →
          (runner.pollUntilStarted json name (elapsed + later + runner.pollInterval)).AtMost
            KubectlCall.runs (statusAttempts * (runner.looksFrom elapsed - 1)) :=
        fun later hearly => (ih later hearly).mono
          (Nat.mul_le_mul_left _ (Nat.le_sub_one_of_lt (looksFrom_later hearly)))
      have hsplit : statusAttempts * runner.looksFrom elapsed =
          statusAttempts + statusAttempts * (runner.looksFrom elapsed - 1) := by
        rw [Nat.add_comm, ← Nat.mul_add_one, Nat.sub_add_cancel hlooks]
      rw [hsplit]
      refine (atMost_attemptProgress name _).tryBind fun progress => ?_
      refine ⟨Nat.zero_le _, fun later => ?_⟩
      cases progress with
      | running pod => trivial
      | finished pod code reason => trivial
      | waiting reason =>
          dsimp only
          split
          · trivial
          · rename_i hearly
            exact ⟨Nat.zero_le _, fun _ => hagain later hearly⟩
      | gone =>
          dsimp only
          split
          · trivial
          · rename_i hearly
            exact ⟨Nat.zero_le _, fun _ => hagain later hearly⟩

lemma atMost_startAndFollow (name : String) :
    (runner.startAndFollow json name).AtMost KubectlCall.runs
      (statusAttempts * runner.looksFrom 0 + 1) := by
  refine ((atMost_pollUntilStarted name 0).unlessAsked rfl).tryBind fun pod => ?_
  refine ⟨le_rfl, ?_⟩
  rintro (e | spawned)
  · trivial
  · exact ⟨le_rfl, fun _ => trivial⟩

end KubernetesRunner

open KubernetesRunner Calls in
/-- **A launch gives up.**  However `kubectl` and the clock answer, and however long the pod stays
`Pending`, a launch runs `kubectl` no more often than five times for each poll interval that begins
before the scheduling deadline, and ten times besides: for the two `create`s, one more look at the
pod, its log, and the two deletes of a launch that fails. -/
theorem launch_gives_up (runner : KubernetesRunner) (json : JsonText)
    (spec : LaunchSpec) (deadline : Option ℕ) (secrets : JobSecrets) :
    (runner.launch json spec deadline secrets).AtMost KubectlCall.runs
      (statusAttempts *
        ((runner.schedulingDeadline + runner.pollInterval - 1) / runner.pollInterval) + 10) := by
  have hcreates : (runner.createAndFollow json spec deadline secrets).AtMost KubectlCall.runs
      (1 + (0 + (1 + (statusAttempts * runner.looksFrom 0 + 1)))) := by
    have hjob : (runner.createJob json spec deadline).AtMost KubectlCall.runs 1 :=
      ⟨le_rfl, fun answer => (AtMost.tryBind (n := 0) (m := 0) (p := .done (runner.printed answer))
        trivial fun _ => trivial)⟩
    have huid : ∀ created, (Calls.done (createdUid spec.name created) :
        Kubectl (Except String String)).AtMost KubectlCall.runs 0 := fun _ => trivial
    have hsecret :
        ∀ uid, (runner.createSecret json spec.name uid secrets).AtMost KubectlCall.runs 1 :=
      fun uid => ⟨le_rfl, fun _ => trivial⟩
    exact hjob.tryBind fun created => (huid created).tryBind fun uid =>
      (hsecret uid).tryBind fun printed => atMost_startAndFollow spec.name
  have hdeletes : (runner.deleteJobAndSecret spec.name).AtMost KubectlCall.runs 2 :=
    ⟨Nat.le_succ 1, fun _ => ⟨le_rfl, fun _ => trivial⟩⟩
  have hlaunch : (runner.launch json spec deadline secrets).AtMost KubectlCall.runs
      (1 + (0 + (1 + (statusAttempts * runner.looksFrom 0 + 1))) + (2 + 0)) := by
    refine hcreates.bind ?_
    rintro (e | launched)
    · exact hdeletes.bind fun _ => trivial
    · trivial
  refine hlaunch.mono (Nat.le_of_eq ?_)
  rw [looksFrom, Nat.sub_zero, Nat.mul_add_one, statusAttempts]
  omega

end AssemblyLine
