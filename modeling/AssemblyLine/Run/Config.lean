import AssemblyLine.Log.Event
import AssemblyLine.Run.Claim

/-!
# What a repository declares, and the round it makes of a request

`RepoConfig` is a repository's `.assembly/config.toml`, and `RoundPayload.forRound` applies it to
one round.  Two callers look at the config first, `run` and the daemon, through
`RepoConfig.reasonsItCannotRun`; `forRound_of_reasonsItCannotRun` is why a config they let through
is one the payload can be made of.

`humantime` and `toml` are what those two crates make of a text: a duration in nanoseconds and a
config, or a complaint.
-/

namespace AssemblyLine

/-- Where a repository declares its factory settings. -/
def repoConfigPath : String := ".assembly/config.toml"

/-- A setting that makes a repository unrunnable as it stands. -/
inductive ConfigError
  | unknownProvider (name : String)
  | noProviderDeclared
  | unparseableMaxDuration (value : String)
  | copyRetired
deriving DecidableEq, Repr

def ConfigError.text : ConfigError → String
  | .unknownProvider name =>
    s!"provider '{name}' is not declared in [providers] — add a block for it"
  | .noProviderDeclared =>
    "no provider: set `provider = \"...\"` and declare it under [providers]"
  | .unparseableMaxDuration value => s!"max_duration '{value}' is not a duration like \"20m\""
  | .copyRetired =>
    "`copy` is no longer supported — commit the file to the repository, or supply " ++
      "a secret as an environment variable: a local round inherits yours, a " ++
      "container round takes it with --pass-env"

/-- A setting worth flagging but not worth refusing to run over. -/
inductive ConfigWarning
  | noVerify
deriving DecidableEq, Repr

def ConfigWarning.text : ConfigWarning → String
  | .noVerify => "no `verify` — nothing will check a job's output before it is delivered"

/-- An `anyhow::Error`, by what its text is made of. -/
inductive Complaint
  | said (text : String)
  | config (e : ConfigError)
  /-- `invalid duration "<value>": <complaint>`. -/
  | invalidDuration (value complaint : String)
deriving DecidableEq, Repr

/-- What becomes of a job's branch once the job finishes. -/
inductive DeliveryMode
  /-- Push the branch and open a pull request against `base`. -/
  | pr
  /-- Leave the branch where it is. -/
  | none
deriving DecidableEq, Repr

structure Delivery where
  mode : DeliveryMode := .pr
deriving DecidableEq, Repr

structure Provider where
  cmd : String
  args : List String := []
deriving DecidableEq, Repr

/-- One repository's factory settings, as the repository itself declares them. -/
structure RepoConfig where
  /-- Which provider a job uses unless the command line names another. -/
  provider : Option String := none
  /-- The command that decides whether a job's work is correct. -/
  verify : Option String := none
  /-- What branch a pull request targets. -/
  base : Option String := none
  /-- Wall-clock cap on one agent invocation, and again on `verify`. -/
  maxDuration : Option String := none
  /-- `copy`, no longer supported, as the value it is given. -/
  retiredCopy : Option String := none
  /-- The map's entries. -/
  providers : List (String × Provider) := []
  delivery : Delivery := {}
deriving DecidableEq, Repr

/-- A duration of one second, in nanoseconds. -/
def oneSecond : ℕ := 10 ^ 9

section Config

variable (humantime : String → Except String ℕ)

/-- Parse a human-written duration. -/
def parseDuration (s : String) : Except Complaint ℕ :=
  (humantime s).mapError (.invalidDuration s)

namespace RepoConfig

/-- A repository's configuration as of `gitRef`, from the file that ref carries. -/
def fromRef (toml : String → Except String RepoConfig) (gitRef : String)
    (file : Except String (Option String)) : Except String RepoConfig :=
  match file with
  | .error e => .error e
  | .ok none => .error s!"{gitRef} carries no {repoConfigPath} — this repository is not opted in"
  | .ok (some src) => (toml src).mapError fun e => s!"parsing {repoConfigPath}: {e}"

variable (config : RepoConfig)

def unparseableMaxDuration : Option ConfigError :=
  config.maxDuration.bind fun value =>
    match parseDuration humantime value with
    | .error _ => some (.unparseableMaxDuration value)
    | .ok _ => none

/-- Every reason this repository cannot run a job with `provider`. -/
def reasonsItCannotRun (provider : String) : List ConfigError :=
  let undeclared : Option ConfigError :=
    match decide (provider = ""), (config.providers.lookup provider).isSome with
    | true, _ => some .noProviderDeclared
    | false, false => some (.unknownProvider provider)
    | false, true => none
  let copied : Option ConfigError := if config.retiredCopy.isSome then some .copyRetired else none
  undeclared.toList ++ (config.unparseableMaxDuration humantime).toList ++ copied.toList

/-- `max_duration` in whole seconds, when it is set and parses. -/
def commandLimitSecs : Option ℕ :=
  (config.maxDuration.bind fun value => (parseDuration humantime value).toOption).map
    (· / oneSecond)

/-- Settings worth telling the user about, none of which stop a job. -/
def settingsWorthFlagging : List ConfigWarning :=
  if config.verify.isNone then [.noVerify] else []

/-- The provider a job uses: the one named for it, else the repository's own. -/
def providerFor (named : Option String) : String := (named.or config.provider).getD ""

end RepoConfig

/-! ## Commands -/

/-- The placeholder a provider's `args` use to receive the job's prompt. -/
def promptPlaceholder : String := "\x7bprompt\x7d"

/-- A command as the operating system takes it. -/
structure CommandSpec where
  program : String
  args : List String
deriving DecidableEq, Repr

def renderCommand (provider : Provider) (prompt : String) : CommandSpec :=
  ⟨provider.cmd, provider.args.map (replaceAll promptPlaceholder prompt)⟩

/-- The job and the first non-blank line of what it was asked, then the whole of it. -/
def commitMessage (jobId : ℕ) (prompt : String) : String :=
  match (textLines prompt).find? fun line => trim line ≠ "" with
  | some first => s!"job {jobId}: {trim first}\n\n{trim prompt}"
  | none => s!"job {jobId}: agent work"

/-! ## A round's payload -/

/-- What one round runs. -/
structure RoundPayload where
  jobId : ℕ
  /-- Where the round clones from and pushes to. -/
  remoteUrl : String
  /-- The name `BranchPushed` records that remote under. -/
  remoteName : String
  /-- The commit the round starts from: the base for round 1, the job's branch tip for a revise. -/
  start : PinnedRef
  branch : String
  command : CommandSpec
  commitMessage : String
  verify : Option String
  /-- Cap on the agent, and again on `verify`, in whole seconds. -/
  commandLimitSecs : Option ℕ
  /-- Whether the round runs `mise install` before the agent. -/
  provisionToolchain : Bool
deriving DecidableEq, Repr

/-- `payload::RoundRequest`: what `run` knows about a round before config has been applied to it. -/
structure PayloadRequest where
  jobId : ℕ
  prompt : String
  provider : String
  start : PinnedRef
  remoteName : String
  remoteUrl : String
deriving DecidableEq, Repr

/-- Apply the repository's config to a round. -/
def RoundPayload.forRound (config : RepoConfig) (request : PayloadRequest) :
    Except Complaint RoundPayload :=
  match config.providers.lookup request.provider with
  | none => .error (.config (.unknownProvider request.provider))
  | some provider =>
    match config.maxDuration.mapM (parseDuration humantime) with
    | .error e => .error e
    | .ok limit =>
      .ok
        { jobId := request.jobId
          remoteUrl := request.remoteUrl
          remoteName := request.remoteName
          start := request.start
          branch := branchName request.jobId
          command := renderCommand provider request.prompt
          commitMessage := AssemblyLine.commitMessage request.jobId request.prompt
          verify := config.verify
          commandLimitSecs := limit.map (· / oneSecond)
          provisionToolchain := false }

end Config

/-! ## A config that can run -/

section Runnable

variable {humantime : String → Except String ℕ} {config : RepoConfig} {provider : String}

lemma RepoConfig.reasonsItCannotRun_eq_nil_iff :
    config.reasonsItCannotRun humantime provider = [] ↔
      provider ≠ "" ∧ (config.providers.lookup provider).isSome ∧
        config.unparseableMaxDuration humantime = none ∧ config.retiredCopy = none := by
  unfold reasonsItCannotRun
  by_cases hempty : provider = ""
  · simp [hempty]
  · cases hlookup : (config.providers.lookup provider).isSome <;>
      simp [hempty, Option.toList_eq_nil_iff]

/-- A `max_duration` nobody objects to is one the payload can use. -/
lemma RepoConfig.duration_of_unparseableMaxDuration
    (h : config.unparseableMaxDuration humantime = none) :
    (∃ value limit, config.maxDuration = some value ∧ parseDuration humantime value = .ok limit) ∨
      config.maxDuration = none := by
  unfold unparseableMaxDuration at h
  cases hvalue : config.maxDuration with
  | none => exact .inr rfl
  | some value =>
      rw [hvalue, Option.bind_some] at h
      cases hparsed : parseDuration humantime value with
      | error e =>
          rw [hparsed] at h
          cases h
      | ok limit => exact .inl ⟨value, limit, rfl, hparsed⟩

/-- **A config without a reason against it makes a payload**, with the limit the config declares. -/
theorem RoundPayload.forRound_of_reasonsItCannotRun {request : PayloadRequest}
    (h : config.reasonsItCannotRun humantime request.provider = []) :
    ∃ payload, forRound humantime config request = .ok payload ∧
      payload.commandLimitSecs = config.commandLimitSecs humantime := by
  obtain ⟨-, hdeclared, hduration, -⟩ := RepoConfig.reasonsItCannotRun_eq_nil_iff.mp h
  obtain ⟨provider, hprovider⟩ := Option.isSome_iff_exists.mp hdeclared
  unfold forRound RepoConfig.commandLimitSecs
  rw [hprovider]
  rcases RepoConfig.duration_of_unparseableMaxDuration hduration with
    ⟨value, limit, hvalue, hparsed⟩ | hnone
  · have hlimit : config.maxDuration.mapM (parseDuration humantime) = .ok (some limit) := by
      rw [hvalue, Option.mapM_some, hparsed]
      rfl
    rw [hlimit, hvalue, Option.bind_some, hparsed]
    exact ⟨_, rfl, rfl⟩
  · rw [hnone]
    exact ⟨_, rfl, rfl⟩

end Runnable

end AssemblyLine
