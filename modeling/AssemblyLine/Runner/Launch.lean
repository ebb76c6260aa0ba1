import AssemblyLine.Daemon.Submit

/-!
# What a runner launches

`LaunchSpec.forRound` is the command line of one round.  What `assembly` makes of it is clap's, of
which `ReadsAttached` is what the daemon relies on: a value attached to its option is read as it is.
`launchedCommand` is then the `run` that a job's log has a runner launch.

The daemon looks at a config before it claims, and the `run` it launches looks again, in another
clone and with the provider and the commit as they were given to it.
`nothing_claimed_for_a_refused_run` is that the two agree, and that each of them claims nothing for
a job it refuses.  `command_line_read_back` is that the round `run` is asked for is the round the
daemon meant, whatever the prompt, the ref and the remote are.
-/

namespace AssemblyLine

/-! ## The command line -/

/-- What a runner launches: `assembly` with `args`, for one round of one job. -/
structure LaunchSpec where
  /-- Unique to this round, for the container or Job that runs it. -/
  name : String
  /-- `assembly`'s arguments, `run` first. -/
  args : List String
  /-- The repository's `max_duration`, for a runner that enforces a backstop of its own. -/
  commandLimitSecs : Option ℕ
  /-- Where a local round writes its frames. -/
  framesFile : PathBuf
deriving DecidableEq, Repr

/-- An option with its value attached, so that the value cannot be read as a flag. -/
def attached (option value : String) : String := option ++ (String.singleton '=' ++ value)

/-- A remote as a round is given it: a container reaches it over HTTPS, and a path on this machine
is passed as a URL, which `run` does not take for a checkout. -/
def remoteForRound (runsInAContainer : Bool) (remoteUrl : String) : String :=
  match runsInAContainer, startsWith "/" remoteUrl with
  | true, _ => httpsEquivalent remoteUrl
  | false, true => s!"file://{remoteUrl}"
  | false, false => remoteUrl

/-- Round `round` of a job, fitted to where it runs; `nanos` is the time since the epoch. -/
def LaunchSpec.forRound (runsInAContainer : Bool) (job : JobPaths) (round : ℕ)
    (request : RoundRequest) (commandLimitSecs : Option ℕ) (nanos : ℕ) : LaunchSpec where
  name := s!"al-{job.id}-{round}-{String.ofList (Nat.toDigits 16 nanos)}"
  args :=
    ["run",
      attached "--repo" (remoteForRound runsInAContainer request.remoteUrl),
      attached "--ref" (request.base.name ++ (String.singleton '@' ++ request.base.sha)),
      attached "--job" (toString job.id),
      attached "--prompt" request.prompt,
      attached "--provider" request.provider,
      "--frames"] ++
    (if runsInAContainer then ["--provision-toolchain"] else [])
  commandLimitSecs
  framesFile := job.dir ++ [s!"round-{round}.frames"]

/-- `assembly run`, as its arguments give it. -/
structure RunCommand extends RunRequest where
  frames : Bool := false
deriving DecidableEq, Repr

namespace RunCommand

/-- An option is given a value once. -/
def once {α : Type} (given value : Option α) : Option (Option α) :=
  if given.isSome then none else value.map some

/-- A prompt is asked for once, in the arguments or in a file. -/
def asksOnce (command : RunCommand) : Bool := command.prompt.isSome ≠ command.promptFile.isSome

end RunCommand

/-- An argument of `run`: an option with its value attached, or a flag. -/
inductive RunArg
  | repo (value : String)
  | baseRef (value : String)
  | job (value : String)
  | prompt (value : String)
  | promptFile (value : String)
  | provider (value : String)
  | frames
  | provisionToolchain
deriving DecidableEq, Repr

namespace RunArg

def text : RunArg → String
  | repo value => attached "--repo" value
  | baseRef value => attached "--ref" value
  | job value => attached "--job" value
  | prompt value => attached "--prompt" value
  | promptFile value => attached "--prompt-file" value
  | provider value => attached "--provider" value
  | frames => "--frames"
  | provisionToolchain => "--provision-toolchain"

/-- What one more argument makes of a command; `none` when it is refused. -/
def addTo (command : RunCommand) : RunArg → Option RunCommand
  | repo value => (RunCommand.once command.repo (some value)).map fun repo => { command with repo }
  | baseRef value =>
    (RunCommand.once command.baseRef (some value)).map fun baseRef => { command with baseRef }
  | job value => (RunCommand.once command.job (parseU64 value)).map fun job => { command with job }
  | prompt value =>
    (RunCommand.once command.prompt (some value)).map fun prompt => { command with prompt }
  | promptFile value =>
    if value = "" then none
    else (RunCommand.once command.promptFile (some value)).map fun promptFile =>
      { command with promptFile }
  | provider value =>
    (RunCommand.once command.provider (some value)).map fun provider => { command with provider }
  | frames => if command.frames then none else some { command with frames := true }
  | provisionToolchain =>
    if command.provisionToolchain then none else some { command with provisionToolchain := true }

end RunArg

/-- What the daemon relies on of clap, for the options that `run` declares: arguments with their
values attached are read by those values, whatever the values are. -/
def ReadsAttached (clap : List String → Option RunCommand) : Prop :=
  ∀ (args : List RunArg) (command : RunCommand), args.foldlM RunArg.addTo {} = some command →
    command.asksOnce = true → clap ("run" :: args.map RunArg.text) = some command

/-- The `run` a runner launches for round `round` of a job with this log. -/
def launchedCommand (clap : List String → Option RunCommand) (runsInAContainer : Bool)
    (job : JobPaths) (round : ℕ) (commandLimitSecs : Option ℕ) (nanos : ℕ)
    (events : List Event) : Option RunCommand :=
  (JobReport.fromEvents job.id events).request.bind fun request =>
    clap (LaunchSpec.forRound runsInAContainer job round request commandLimitSecs nanos).args

section Launching

variable {clap : List String → Option RunCommand} {runsInAContainer : Bool} {job : JobPaths}
  {request : RoundRequest}

/-- The arguments of a round. -/
def roundArgs (runsInAContainer : Bool) (job : JobPaths) (request : RoundRequest) : List RunArg :=
  [.repo (remoteForRound runsInAContainer request.remoteUrl),
    .baseRef (request.base.name ++ (String.singleton '@' ++ request.base.sha)),
    .job (toString job.id), .prompt request.prompt, .provider request.provider, .frames] ++
  if runsInAContainer then [.provisionToolchain] else []

lemma args_forRound (runsInAContainer : Bool) (job : JobPaths) (round : ℕ) (request : RoundRequest)
    (commandLimitSecs : Option ℕ) (nanos : ℕ) :
    (LaunchSpec.forRound runsInAContainer job round request commandLimitSecs nanos).args =
      "run" :: (roundArgs runsInAContainer job request).map RunArg.text := by
  cases runsInAContainer <;> rfl

/-- The command line says what the round was asked for, in the words `run` reads it by. -/
lemma clap_forRound (reads : ReadsAttached clap) (fits : job.id ≤ u64Max) (round : ℕ)
    (commandLimitSecs : Option ℕ) (nanos : ℕ) :
    clap (LaunchSpec.forRound runsInAContainer job round request commandLimitSecs nanos).args =
      some
        { repo := some (remoteForRound runsInAContainer request.remoteUrl)
          baseRef := some (request.base.name ++ (String.singleton '@' ++ request.base.sha))
          job := some job.id
          prompt := some request.prompt
          provider := some request.provider
          provisionToolchain := runsInAContainer
          frames := true } := by
  rw [args_forRound]
  refine reads _ _ ?_ rfl
  have hid : parseU64 (toString job.id) = some job.id := parseU64_toString fits
  cases runsInAContainer with
  | true => simp [roundArgs, RunArg.addTo, RunCommand.once, hid, -Nat.toString_eq_repr]
  | false => simp [roundArgs, RunArg.addTo, RunCommand.once, hid, -Nat.toString_eq_repr]

/-- Only a request changes what a report records of the request. -/
lemma request_afterEvent {p : JobProgress} {e : Event} (he : e.kind.lifecycle ≠ some .requested) :
    (p.afterEvent e).base = p.base ∧ (p.afterEvent e).provider = p.provider ∧
      (p.afterEvent e).remoteUrl = p.remoteUrl ∧
      (p.afterEvent e).latestPrompt = p.latestPrompt := by
  obtain ⟨stamp, kind⟩ := e
  cases kind with
  | roundRequested => exact absurd rfl he
  | _ => exact ⟨rfl, rfl, rfl, rfl⟩

/-- A job's latest request is the one its report records. -/
lemma base_provider_of_later {p : JobProgress} {later : List Event}
    (hlater : ∀ e ∈ later, e.kind.lifecycle ≠ some .requested) :
    (later.foldl JobProgress.afterEvent p).base = p.base ∧
      (later.foldl JobProgress.afterEvent p).provider = p.provider ∧
      (later.foldl JobProgress.afterEvent p).remoteUrl = p.remoteUrl ∧
      (later.foldl JobProgress.afterEvent p).latestPrompt = p.latestPrompt := by
  induction later generalizing p with
  | nil => exact ⟨rfl, rfl, rfl, rfl⟩
  | cons e later ih =>
      obtain ⟨hbase, hprovider, hurl, hprompt⟩ :=
        request_afterEvent (p := p) (hlater e List.mem_cons_self)
      rw [← hbase, ← hprovider, ← hurl, ← hprompt]
      exact ih fun f hf => hlater f (List.mem_cons_of_mem _ hf)

/-- Until the next request is in the log, a round is launched for the latest one. -/
lemma request_of_recorded (id : ℕ) (earlier : List Event) {later : List Event} (now : Instant)
    (url : String) (base : PinnedRef) (prompt provider : String)
    (hlater : ∀ e ∈ later, e.kind.lifecycle ≠ some .requested) :
    ∃ remoteUrl, (JobReport.fromEvents id
      (earlier ++ ⟨now, .roundRequested url base prompt provider⟩ :: later)).request =
        some ⟨remoteUrl, base, prompt, provider⟩ := by
  obtain ⟨hbase, hprovider, hurl, hprompt⟩ := base_provider_of_later
    (p := (JobProgress.ofEvents earlier).afterEvent
      ⟨now, .roundRequested url base prompt provider⟩) hlater
  have hevents : JobProgress.ofEvents
      (earlier ++ ⟨now, .roundRequested url base prompt provider⟩ :: later) =
        later.foldl JobProgress.afterEvent ((JobProgress.ofEvents earlier).afterEvent
          ⟨now, .roundRequested url base prompt provider⟩) := by
    simp [JobProgress.ofEvents]
  have hfirst : (((JobProgress.ofEvents earlier).remoteUrl).or (some url)).isSome := by simp
  obtain ⟨remoteUrl, hremote⟩ := Option.isSome_iff_exists.mp hfirst
  refine ⟨remoteUrl, ?_⟩
  simp only [JobReport.fromEvents, JobReport.request, hevents, hbase, hprovider, hurl, hprompt]
  simp only [JobProgress.afterEvent, hremote]

/-- So is the `run` that is launched. -/
lemma launchedCommand_of_recorded (reads : ReadsAttached clap) (runsInAContainer : Bool)
    (fits : job.id ≤ u64Max) (round : ℕ) (commandLimitSecs : Option ℕ) (nanos : ℕ)
    (earlier : List Event) {later : List Event} (now : Instant) (url : String) (base : PinnedRef)
    (prompt provider : String) (hlater : ∀ e ∈ later, e.kind.lifecycle ≠ some .requested) :
    ∃ command, launchedCommand clap runsInAContainer job round commandLimitSecs nanos
        (earlier ++ ⟨now, .roundRequested url base prompt provider⟩ :: later) = some command ∧
      command.baseRef = some (base.name ++ (String.singleton '@' ++ base.sha)) ∧
      command.provider = some provider := by
  obtain ⟨remoteUrl, hrequest⟩ :=
    request_of_recorded job.id earlier now url base prompt provider hlater
  unfold launchedCommand
  rw [hrequest, Option.bind_some, clap_forRound reads fits]
  exact ⟨_, rfl, rfl, rfl⟩

end Launching

/-! ## Two looks at a config -/

section Agreeing

variable {humantime : String → Except String ℕ} {toml : String → Except String RepoConfig}
  {json : JsonLines Event} {runsInAContainer : Bool} {root : PathBuf} {world : SubmitWorld}
  {files : RootFiles} {submission : Api.Submission} {checked : CheckedSubmit}
  {run : PrepareWorld}

lemma fetchedSha_of_pinned {remote gitRef : String} {fetched : Except String String}
    {lacks : Except String Bool} {base : PinnedRef}
    (h : pinned remote gitRef fetched lacks = .ok base) :
    base.name = gitRef ∧ fetched = .ok base.sha := by
  unfold pinned at h
  split at h
  · obtain rfl := Except.ok.inj h
    exact ⟨rfl, rfl⟩
  all_goals cases h

/-- What a checked submit has been found to be: its config is the one at its base, and it can run
its provider. -/
lemma checkSubmit_spec
    (h : checkSubmit humantime toml json runsInAContainer root world files submission =
      .ok checked) :
    world.fetchedSha checked.base.name = .ok checked.base.sha ∧
      RepoConfig.fromRef toml checked.base.sha (world.fileAtRef checked.base.sha) =
        .ok checked.config ∧
      checked.config.reasonsItCannotRun humantime checked.provider = [] := by
  unfold checkSubmit at h
  dsimp only at h
  split at h
  · cases h
  · by_cases hproblems :
        (if runsInAContainer then reasonsAContainerCannotRun submission.remoteUrl else []) ≠ []
    · rw [if_pos hproblems] at h
      cases h
    · rw [if_neg hproblems] at h
      simp only [exceptBind_eq_ok, exceptMapError_eq_ok, exceptMap_eq_ok] at h
      obtain ⟨_, -, continued, -, named, -, base, hbase, provider, hprovider, rfl⟩ := h
      unfold configAtBase at hbase
      simp only [exceptBind_eq_ok, exceptMap_eq_ok] at hbase
      obtain ⟨pin, hpin, config, hconfig, rfl⟩ := hbase
      obtain ⟨hname, hsha⟩ := fetchedSha_of_pinned hpin
      refine ⟨?_, hconfig, (runnableProvider_eq_ok_iff.mp hprovider).2⟩
      dsimp only
      rw [hname, hsha]

/-- A commit holds the same file in every clone that has it. -/
def SameFile (world : SubmitWorld) (run : PrepareWorld) (sha : String) : Prop :=
  ∀ here there, world.fileAtRef sha = .ok here → run.fileAtRef sha = .ok there → here = there

/-- A pinned ref that the clone supplies is where the run starts from. -/
lemma pinInClone_eq {gitRef sha : String} {base : PinnedRef}
    (h : run.pinInClone gitRef (some sha) = .ok base) : base = ⟨gitRef, sha⟩ := by
  unfold PrepareWorld.pinInClone at h
  split at h
  · cases h
  · rename_i hnone
    cases hnone
  · rename_i found hsha
    obtain rfl := Option.some.inj hsha
    split at h
    · cases h
    · exact (Except.ok.inj h).symm
    · cases h

/-- A run that starts from a full pin reads the config there. -/
lemma config_at_pin {name sha : String} {remote : String × String} {base : PinnedRef × RepoConfig}
    {command : RunRequest} (hname : name ≠ "") (hsha : isFullSha sha = true)
    (hcommand : command.baseRef = some (name ++ (String.singleton '@' ++ sha)))
    (hremote : run.remoteAndBaseRef command.repo command.baseRef = .ok remote)
    (hbase : baseAndConfig toml run remote.2 = .ok base) :
    RepoConfig.fromRef toml sha (run.fileAtRef sha) = .ok base.2 := by
  rw [hcommand] at hremote
  simp only [PrepareWorld.remoteAndBaseRef, PrepareWorld.baseRefOf, exceptBind_eq_ok,
    exceptMap_eq_ok] at hremote
  obtain ⟨found, -, named, hnamed, rfl⟩ := hremote
  obtain rfl := Except.ok.inj hnamed
  simp only [baseAndConfig, splitPin_append hname hsha, exceptBind_eq_ok, exceptMap_eq_ok] at hbase
  obtain ⟨pin, hpin, config, hconfig, rfl⟩ := hbase
  rwa [pinInClone_eq hpin] at hconfig

/-- One commit's file gives one config. -/
lemma config_eq {sha : String} {config config' : RepoConfig} (same : SameFile world run sha)
    (h : RepoConfig.fromRef toml sha (world.fileAtRef sha) = .ok config)
    (h' : RepoConfig.fromRef toml sha (run.fileAtRef sha) = .ok config') : config = config' := by
  cases hhere : world.fileAtRef sha with
  | error e =>
      rw [hhere] at h
      cases h
  | ok here =>
      cases hthere : run.fileAtRef sha with
      | error e =>
          rw [hthere] at h'
          cases h'
      | ok there =>
          rw [hhere, same here there hhere hthere] at h
          rw [hthere] at h'
          exact Except.ok.inj (h.symm.trans h')

/-- A run given the provider of a checked submit does not refuse the config the submit was checked
with. -/
lemma config_ne_of_refused {config : RepoConfig} {problems : List ConfigError}
    (hreasons : checked.config.reasonsItCannotRun humantime checked.provider = [])
    (hrefused : runnableProvider humantime config (some checked.provider) = .error problems) :
    config ≠ checked.config := by
  rintro rfl
  have hrunnable : runnableProvider humantime checked.config (some checked.provider) =
      .ok checked.provider := runnableProvider_eq_ok_iff.mpr ⟨rfl, hreasons⟩
  rw [hrunnable] at hrefused
  cases hrefused

/-- A `run` launched for a checked submit is not refused for the config the daemon accepted; nor
for any other, when what the submit starts from has a name. -/
lemma not_refused_of_checkSubmit
    (hchecked : checkSubmit humantime toml json runsInAContainer root world files submission =
      .ok checked)
    (full : ∀ gitRef sha, world.fetchedSha gitRef = .ok sha → isFullSha sha = true)
    (same : SameFile world run checked.base.sha) {command : RunRequest}
    (hbaseRef : command.baseRef =
      some (checked.base.name ++ (String.singleton '@' ++ checked.base.sha)))
    (hprovider : command.provider = some checked.provider) {problems : List ConfigError}
    (hrefused : (prepareRun humantime toml run command).1 = .error (.configNotRunnable problems)) :
    checked.base.name = "" ∧
      ∃ remote base, run.remoteAndBaseRef command.repo command.baseRef = .ok remote ∧
        baseAndConfig toml run remote.2 = .ok base ∧ base.2 ≠ checked.config := by
  obtain ⟨hfetched, hconfig, hreasons⟩ := checkSubmit_spec hchecked
  obtain ⟨remote, base, hremote, hbase, hproblems⟩ := prepareRun_configNotRunnable hrefused
  rw [hprovider] at hproblems
  have hother : base.2 ≠ checked.config := config_ne_of_refused hreasons hproblems
  refine ⟨?_, remote, base, hremote, hbase, hother⟩
  by_contra hname
  have hread := config_at_pin hname (full _ _ hfetched) hbaseRef hremote hbase
  exact hother (config_eq same hconfig hread).symm

end Agreeing

/-- **Nothing is claimed for a job that is refused.**  Whatever git, the file system and the moment
of a cancel make of a run, one that is refused has created no branch; a config without a reason
against a provider makes that provider's payload, with its own limit; and the `run` a job's log has
launched does not refuse as not runnable the config that the daemon accepted at the job's base, nor
does it look at any other, unless the base is a commit of a ref without a name. -/
theorem nothing_claimed_for_a_refused_run (humantime : String → Except String ℕ)
    (toml : String → Except String RepoConfig) (clap : List String → Option RunCommand)
    (reads : ReadsAttached clap) :
    (∀ (world : PrepareWorld) (request : RunRequest) (refused : RunRefused),
      (∀ k, (world.claim k).Honest defaultRemote) →
      (prepareRun humantime toml world request).1 = .error refused →
        (prepareRun humantime toml world request).2 = []) ∧
    (∀ (config : RepoConfig) (request : PayloadRequest),
      config.reasonsItCannotRun humantime request.provider = [] →
        ∃ payload, RoundPayload.forRound humantime config request = .ok payload ∧
          payload.commandLimitSecs = config.commandLimitSecs humantime) ∧
    ∀ (json : JsonLines Event) (runsInAContainer : Bool) (root : PathBuf) (world : SubmitWorld)
      (files : RootFiles) (submission : Api.Submission) (checked : CheckedSubmit),
      checkSubmit humantime toml json runsInAContainer root world files submission = .ok checked →
      (∀ gitRef sha, world.fetchedSha gitRef = .ok sha → isFullSha sha = true) →
      ∀ (job : JobPaths) (round : ℕ) (commandLimitSecs : Option ℕ) (nanos : ℕ)
        (earlier later : List Event) (now : Instant), job.id ≤ u64Max →
        (∀ e ∈ later, e.kind.lifecycle ≠ some .requested) →
        ∃ command, launchedCommand clap runsInAContainer job round commandLimitSecs nanos
            (earlier ++ ⟨now, checked.request submission⟩ :: later) = some command ∧
          ∀ (run : PrepareWorld) (problems : List ConfigError),
            SameFile world run checked.base.sha →
            (prepareRun humantime toml run command.toRunRequest).1 =
              .error (.configNotRunnable problems) →
            checked.base.name = "" ∧
              ∃ remote base, run.remoteAndBaseRef command.repo command.baseRef = .ok remote ∧
                baseAndConfig toml run remote.2 = .ok base ∧ base.2 ≠ checked.config := by
  refine ⟨?_, ?_, ?_⟩
  · intro world request refused honest hrefused
    exact prepareRun_creates honest hrefused
  · intro config request hreasons
    exact RoundPayload.forRound_of_reasonsItCannotRun hreasons
  · intro json runsInAContainer root world files submission checked hchecked full job round
      commandLimitSecs nanos earlier later now fits hlater
    obtain ⟨command, hcommand, hbaseRef, hprovider⟩ :=
      launchedCommand_of_recorded reads runsInAContainer fits round commandLimitSecs nanos earlier
        now
        submission.remoteUrl checked.base submission.prompt checked.provider hlater
    refine ⟨command, hcommand, ?_⟩
    intro run problems same hrefused
    exact not_refused_of_checkSubmit hchecked full same hbaseRef hprovider hrefused

/-- A clone of the remote that has `main` only. -/
def mainClone : PrepareWorld where
  readFile _ := .error "No such file or directory (os error 2)"
  holdsGit _ := false
  enclosingCheckout := .error "not a git repository"
  remoteUrl _ := .ok none
  currentBranch _ := .ok none
  cloning := .cloned (.ok ())
  fetchedSha := mainOnly.fetchedSha
  remoteLacksRef := mainOnly.remoteLacksRef
  lacksJobBranch := .ok false
  hasCommit _ _ := .ok true
  fetchCommit _ := .ok ()
  fileAtRef _ := .ok (some oneProviderText)
  isCancelled := false
  claim _ := firstClaim

/-- An argument as it stands on a command line. -/
def RunArg.ofText (arg : String) : Option RunArg :=
  match splitOnce "=" arg with
  | some ("--repo", value) => some (.repo value)
  | some ("--ref", value) => some (.baseRef value)
  | some ("--job", value) => some (.job value)
  | some ("--prompt", value) => some (.prompt value)
  | some ("--prompt-file", value) => some (.promptFile value)
  | some ("--provider", value) => some (.provider value)
  | some _ => none
  | none =>
    if arg = "--frames" then some .frames
    else if arg = "--provision-toolchain" then some .provisionToolchain
    else none

/-- A reader of command lines whose values are attached. -/
def readAttached : List String → Option RunCommand
  | "run" :: args =>
    ((args.mapM RunArg.ofText).bind fun given => given.foldlM RunArg.addTo {}).filter
      RunCommand.asksOnce
  | _ => none

lemma RunArg.ofText_text (arg : RunArg) : RunArg.ofText arg.text = some arg := by
  have hattached : ∀ {option : String}, '=' ∉ option.toList → ∀ value,
      splitOnce "=" (attached option value) = some (option, value) := fun hoption value =>
    splitOnce_append hoption value
  cases arg with
  | frames => rfl
  | provisionToolchain => rfl
  | _ =>
      rw [RunArg.ofText, RunArg.text, hattached (by decide)]
      simp

lemma readAttached_readsAttached : ReadsAttached readAttached := by
  intro args command hargs honce
  have hread : ∀ args : List RunArg, (args.map RunArg.text).mapM RunArg.ofText = some args := by
    intro args
    induction args with
    | nil => rfl
    | cons arg args ih =>
        rw [List.map_cons, List.mapM_cons, RunArg.ofText_text, ih]
        rfl
  rw [readAttached, hread args, Option.bind_some, hargs]
  simp [honce]

/-- A run that is given no prompt, a payload, and the run of a job that was submitted. -/
theorem nothing_claimed_for_a_refused_run_main :
    (prepareRun noDuration tomlOf mainClone {}).2 = [] ∧
    (∃ payload, RoundPayload.forRound noDuration oneProvider
        ⟨1, "fix it", "claude", ⟨"main", mainSha⟩, defaultRemote, secondJob.remoteUrl⟩ =
          .ok payload ∧ payload.commandLimitSecs = none) ∧
    ∃ command, launchedCommand readAttached false
        ⟨1, ["srv", "jobs", "git.example.com", "team", "1"]⟩ 1 none 0
        [⟨mainOnly.now, .roundRequested secondJob.remoteUrl ⟨"main", mainSha⟩ secondJob.prompt
          "claude"⟩] = some command ∧
      ∀ problems, (prepareRun noDuration tomlOf mainClone command.toRunRequest).1 ≠
        .error (.configNotRunnable problems) := by
  obtain ⟨hrefused, hpayload, hlaunched⟩ := nothing_claimed_for_a_refused_run noDuration tomlOf
    readAttached readAttached_readsAttached
  refine ⟨?_, ?_, ?_⟩
  · exact hrefused mainClone {} (.unpreparable (.said "a job needs --prompt or --prompt-file"))
      (fun _ => firstClaim_honest _) rfl
  · exact hpayload oneProvider _ (by decide)
  · have hchecked : checkSubmit noDuration tomlOf requestJson.toJsonLines false ["srv"] mainOnly
        FileTree.empty secondJob =
          .ok ⟨teamJob.key, none, ⟨"main", mainSha⟩, oneProvider, "claude"⟩ := rfl
    have hfull : ∀ gitRef sha, mainOnly.fetchedSha gitRef = .ok sha → isFullSha sha = true := by
      intro gitRef sha hsha
      simp only [mainOnly] at hsha
      split at hsha
      · obtain rfl := Except.ok.inj hsha
        decide
      · cases hsha
    obtain ⟨command, hcommand, hruns⟩ := hlaunched _ _ _ _ _ _ _ hchecked hfull
      ⟨1, ["srv", "jobs", "git.example.com", "team", "1"]⟩ 1 none 0 [] [] mainOnly.now (by decide)
      (by simp)
    refine ⟨command, hcommand, ?_⟩
    intro problems hproblems
    have hnone := (hruns mainClone problems ?_ hproblems).1
    · exact absurd hnone (by decide)
    · rintro here there hhere hthere
      exact Except.ok.inj (hhere.symm.trans hthere)

/-! ## Reading it back -/

/-- What is not taken for a checkout is taken for a remote, from the ref that is named. -/
lemma remoteAndBaseRef_of_url {world : PrepareWorld} {url named : String}
    (hurl : world.holdsGit url = false) :
    world.remoteAndBaseRef (some url) (some named) = .ok (url, named) := by
  simp [PrepareWorld.remoteAndBaseRef, PrepareWorld.remoteAndCheckout, hurl,
    PrepareWorld.baseRefOf, Except.bind, Except.map]

/-- **A command line is read back as the round it was made for.**  For every job, base, prompt,
provider and remote, and either kind of runner, `run` reads its arguments as a request for that job
with that prompt and that provider, with frames, and with the toolchain provisioned for a container
only; its ref is that name pinned to that commit; and, unless a directory with a `.git` is named as
its remote is, it takes the remote as a URL: the HTTPS form for a container, and for the host the
`file://` form of an absolute path and any other remote as it is. -/
theorem command_line_read_back (clap : List String → Option RunCommand)
    (runsInAContainer : Bool) (job : JobPaths) (round : ℕ) (request : RoundRequest)
    (commandLimitSecs : Option ℕ) (nanos : ℕ) (world : PrepareWorld) (reads : ReadsAttached clap)
    (fits : job.id ≤ u64Max) (hname : request.base.name ≠ "")
    (hsha : isFullSha request.base.sha = true)
    (hurl : world.holdsGit (remoteForRound runsInAContainer request.remoteUrl) = false) :
    ∃ command named remote,
      clap (LaunchSpec.forRound runsInAContainer job round request commandLimitSecs nanos).args =
        some command ∧
      command.job = some job.id ∧ command.prompt = some request.prompt ∧
      command.promptFile = none ∧ command.provider = some request.provider ∧
      command.frames = true ∧ command.provisionToolchain = runsInAContainer ∧
      command.repo = some remote ∧ command.baseRef = some named ∧
      splitPin named = (request.base.name, some request.base.sha) ∧
      world.remoteAndBaseRef command.repo command.baseRef = .ok (remote, named) ∧
      (runsInAContainer = true → remote = httpsEquivalent request.remoteUrl) ∧
      (runsInAContainer = false → startsWith "/" request.remoteUrl = true →
        remote = "file://" ++ request.remoteUrl) ∧
      (runsInAContainer = false → startsWith "/" request.remoteUrl = false →
        remote = request.remoteUrl) := by
  refine ⟨_, _, _, clap_forRound reads fits round commandLimitSecs nanos, rfl, rfl, rfl, rfl, rfl,
    rfl, rfl, rfl, splitPin_append hname hsha, remoteAndBaseRef_of_url hurl, ?_, ?_, ?_⟩
  · rintro rfl
    rfl
  · rintro rfl hpath
    simp [remoteForRound, hpath, toString]
  · rintro rfl hpath
    simp [remoteForRound, hpath]

/-- A ref that looks like an option with a pin, and a remote with a user. -/
theorem command_line_read_back_container :
    ∃ command, readAttached (LaunchSpec.forRound true ⟨7, ["srv", "7"]⟩ 2
          ⟨"git@github.com:o/r.git", ⟨"--job=9@main", mainSha⟩, "--frames", "claude"⟩ (some 60)
            0).args = some command ∧ command.job = some 7 ∧ command.prompt = some "--frames" ∧
      command.repo = some "https://github.com/o/r.git" := by
  obtain ⟨command, named, remote, hcommand, hjob, hprompt, -, -, -, -, hrepo, -, -, -, hhttps, -⟩ :=
    command_line_read_back readAttached true ⟨7, ["srv", "7"]⟩ 2
      ⟨"git@github.com:o/r.git", ⟨"--job=9@main", mainSha⟩, "--frames", "claude"⟩ (some 60) 0
      mainClone readAttached_readsAttached (by decide) (by decide) (by decide) rfl
  refine ⟨command, hcommand, hjob, hprompt, ?_⟩
  rw [hrepo, hhttps rfl]
  decide +kernel

end AssemblyLine
