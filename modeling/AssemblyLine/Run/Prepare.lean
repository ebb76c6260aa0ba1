import AssemblyLine.Round.Outcome

/-!
# Preparing a run

`prepareRun` is everything `assembly run` checks, and the claim, before the round: from the
request it was given to a `ReadyJob`, or to why the job will not run.  What the file system, git
and the clock answer on the way is a `PrepareWorld`.

Nothing is claimed until every check that can refuse the job has passed.  What could still go
wrong after the claim is the payload, and `prepareRun_creates` is why it does not.
-/

namespace AssemblyLine

/-- The repository's remote a job clones from and publishes its branch to. -/
def defaultRemote : String := "origin"

/-- What `assembly run` was asked for, as given on the command line. -/
structure RunRequest where
  /-- A checkout, or a remote URL.  `none` is the enclosing checkout. -/
  repo : Option String := none
  /-- `REF`, or `REF@SHA` to pin it. -/
  baseRef : Option String := none
  job : Option ℕ := none
  prompt : Option String := none
  promptFile : Option String := none
  provider : Option String := none
  provisionToolchain : Bool := false
deriving DecidableEq, Repr

/-- Why a job will not run, decided before anything was claimed for it. -/
inductive RunRefused
  | configNotRunnable (errors : List ConfigError)
  | noJobBranch (id : ℕ)
  | unpreparable (e : Complaint)
deriving DecidableEq, Repr

namespace RunRefused

/-- Every reason, one per line, to report ahead of the refusal itself. -/
def itemizedReasons : RunRefused → List String
  | .configNotRunnable errors => errors.map ConfigError.text
  | .noJobBranch _ => []
  | .unpreparable _ => []

/-- A refusal's text, `quoted` being how a value is written in quotes. -/
def text (quoted : String → String) : RunRefused → String
  | .configNotRunnable _ => s!"{repoConfigPath} is not runnable"
  | .noJobBranch id =>
    s!"job {id} has no branch on '{defaultRemote}' — it was deleted, or the job never " ++
      "pushed one, so there is nothing to continue; run without --job to start a new job"
  | .unpreparable (.said e) => e
  | .unpreparable (.config e) => e.text
  | .unpreparable (.invalidDuration value complaint) =>
    "invalid duration " ++ quoted value ++ ": " ++ complaint

end RunRefused

/-- An error in an answer refuses the job. -/
def orUnpreparable {α : Type} (answer : Except String α) : Except RunRefused α :=
  answer.mapError fun e => .unpreparable (.said e)

/-! ## Pins -/

def isAsciiHexdigit (c : Char) : Bool :=
  c.isDigit ∨ ('a' ≤ c ∧ c ≤ 'f') ∨ ('A' ≤ c ∧ c ≤ 'F')

/-- Whether this is a full hex object name. -/
def isFullSha (sha : String) : Bool :=
  sha.utf8ByteSize ∈ [40, 64] ∧ sha.toList.all isAsciiHexdigit

/-- `main@<sha>` as the ref and the commit it is pinned to; anything whose part after the last `@`
is not a full hex object name is a ref alone. -/
def splitPin (named : String) : String × Option String :=
  match rsplitOnce '@' named with
  | some (name, sha) => if name ≠ "" ∧ isFullSha sha then (name, some sha) else (named, none)
  | none => (named, none)

/-- A pinned ref is taken apart as it was put together. -/
lemma splitPin_append {name sha : String} (hname : name ≠ "") (hsha : isFullSha sha = true) :
    splitPin (name ++ (String.singleton '@' ++ sha)) = (name, some sha) := by
  have hat : '@' ∉ sha.toList := by
    intro hmem
    rw [isFullSha, decide_eq_true_eq, List.all_eq_true] at hsha
    exact absurd (hsha.2 '@' hmem) (by decide)
  rw [splitPin, rsplitOnce_append hat]
  exact if_pos ⟨hname, hsha⟩

/-- `git::pinned`: a ref as a remote has it, by what fetching it and then looking for it
answered. -/
def pinned (remote gitRef : String) (fetchedSha : Except String String)
    (remoteLacksRef : Except String Bool) : Except String PinnedRef :=
  match fetchedSha, remoteLacksRef with
  | .ok sha, _ => .ok ⟨gitRef, sha⟩
  | .error _, .error e => .error e
  | .error failure, .ok true =>
    .error (s!"'{gitRef}' is not on '{remote}' — a job starts from a clone of the remote, " ++
      s!"so push it first: {failure}")
  | .error failure, .ok false => .error failure

/-! ## The world `run` prepares in -/

/-- How cloning ended. -/
inductive Cloning
  | cloned (result : Except String Unit)
  | timedOut
  | cancelled
deriving DecidableEq, Repr

structure PrepareWorld where
  /-- `std::fs::read_to_string`. -/
  readFile : String → Except String String
  /-- Whether a path holds a `.git`. -/
  holdsGit : String → Bool
  enclosingCheckout : Except String String
  remoteUrl : String → Except String (Option String)
  currentBranch : String → Except String (Option String)
  cloning : Cloning
  fetchedSha : String → Except String String
  remoteLacksRef : String → Except String Bool
  /-- Whether the remote lacks the branch of the job that is continued. -/
  lacksJobBranch : Except String Bool
  /-- Whether the clone has a commit, before and after it is fetched. -/
  hasCommit : Bool → String → Except String Bool
  fetchCommit : String → Except String Unit
  fileAtRef : String → Except String (Option String)
  isCancelled : Bool
  /-- What git does for each attempt of the claim. -/
  claim : ℕ → Attempt

namespace PrepareWorld

variable (world : PrepareWorld)

/-- The prompt, from the command line or the file it names. -/
def promptText (prompt promptFile : Option String) : Except String String :=
  match prompt, promptFile with
  | some text, _ => .ok text
  | none, some path => (world.readFile path).mapError fun e => s!"reading {path}: {e}"
  | none, none => .error "a job needs --prompt or --prompt-file"

/-- Where a checkout's jobs clone from. -/
def remoteToClone (checkout : String) : Except String String :=
  match world.remoteUrl checkout with
  | .error e => .error e
  | .ok (some url) => .ok url
  | .ok none =>
    .error (s!"the repository has no '{defaultRemote}' remote — a job clones from it and pushes " ++
      "its branch back to it, so add one")

/-- The remote a request acts on, with the checkout it is read from, unless it is a URL. -/
def remoteAndCheckout (repo : Option String) : Except String (String × Option String) :=
  match repo with
  | some named =>
    if world.holdsGit named then (world.remoteToClone named).map fun url => (url, some named)
    else .ok (named, none)
  | none =>
    world.enclosingCheckout.bind fun checkout =>
      (world.remoteToClone checkout).map fun url => (url, some checkout)

/-- What a job starts from: the ref that is named, else a checkout's checked-out branch. -/
def baseRefOf (baseRef checkout : Option String) : Except String String :=
  match baseRef, checkout with
  | some named, _ => .ok named
  | none, some checkout =>
    match world.currentBranch checkout with
    | .error e => .error e
    | .ok (some branch) => .ok branch
    | .ok none => .error "HEAD is detached — name the ref to start from with --ref"
  | none, none =>
    .error "a remote URL has no checked-out branch — name the ref to start from with --ref"

/-- Where the job clones from, and what it starts from. -/
def remoteAndBaseRef (repo baseRef : Option String) : Except String (String × String) :=
  (world.remoteAndCheckout repo).bind fun remote =>
    (world.baseRefOf baseRef remote.2).map fun base => (remote.1, base)

/-- `within_provisioning_limit`. -/
def cloned : Except String Unit :=
  match world.cloning with
  | .cloned result => result
  | .timedOut => .error s!"provisioning timed out after {RoundWorld.provisioningLimit}"
  | .cancelled => .error "cancelled"

/-- Have the clone hold a commit, from the remote if need be. -/
def supplied (sha : String) : Except String Bool :=
  match world.hasCommit false sha with
  | .error e => .error e
  | .ok true => world.hasCommit true sha
  | .ok false => (world.fetchCommit sha).bind fun _ => world.hasCommit true sha

/-- `workspace::pin_in_clone`. -/
def pinInClone (gitRef : String) (pinnedSha : Option String) : Except String PinnedRef :=
  match pinned defaultRemote gitRef (world.fetchedSha gitRef) (world.remoteLacksRef gitRef),
      pinnedSha with
  | .error e, _ => .error e
  | .ok tip, none => .ok tip
  | .ok _, some sha =>
    match world.supplied sha with
    | .error e => .error e
    | .ok true => .ok ⟨gitRef, sha⟩
    | .ok false =>
      .error s!"'{sha}' is not a commit '{defaultRemote}' can supply for '{gitRef}'"

/-- Where continuing a job starts: its branch's tip on the remote. -/
def jobBranchTip (id : ℕ) : Except RunRefused PinnedRef :=
  match world.lacksJobBranch with
  | .error e => .error (.unpreparable (.said e))
  | .ok true => .error (.noJobBranch id)
  | .ok false =>
    orUnpreparable (pinned defaultRemote (branchName id) (world.fetchedSha (branchName id))
      (world.remoteLacksRef (branchName id)))

end PrepareWorld

/-! ## Preparing -/

/-- A job whose every check has passed, and for which nothing has been claimed. -/
structure CheckedJob where
  prompt : String
  remoteUrl : String
  base : PinnedRef
  config : RepoConfig
  provider : String
deriving DecidableEq, Repr

section Preparing

variable (humantime : String → Except String ℕ) (toml : String → Except String RepoConfig)
  (world : PrepareWorld) (request : RunRequest)

/-- The base of a job, as the request names it and the clone has it, and the config there. -/
def baseAndConfig (baseRef : String) : Except String (PinnedRef × RepoConfig) :=
  let pin := splitPin baseRef
  (world.pinInClone pin.1 pin.2).bind fun base =>
    (RepoConfig.fromRef toml base.sha (world.fileAtRef base.sha)).map fun config => (base, config)

/-- The provider a job runs with, or why its config cannot run it. -/
def runnableProvider (config : RepoConfig) (named : Option String) :
    Except (List ConfigError) String :=
  let provider := config.providerFor named
  let problems := config.reasonsItCannotRun humantime provider
  if problems = [] then .ok provider else .error problems

/-- Every check of `prepare_run` that nothing has been claimed before. -/
def checkRun : Except RunRefused CheckedJob :=
  (orUnpreparable (world.promptText request.prompt request.promptFile)).bind fun prompt =>
  (orUnpreparable (world.remoteAndBaseRef request.repo request.baseRef)).bind fun remote =>
  (orUnpreparable world.cloned).bind fun _ =>
  (orUnpreparable (baseAndConfig toml world remote.2)).bind fun base =>
  ((runnableProvider humantime base.2 request.provider).mapError .configNotRunnable).bind
    fun provider =>
  if world.isCancelled then .error (.unpreparable (.said "cancelled"))
  else .ok ⟨prompt, remote.1, base.1, base.2, provider⟩

/-- A checked job with its id and where it starts. -/
def readyJob (checked : CheckedJob) (id : ℕ) (start : PinnedRef) (claimed : Bool) :
    Except RunRefused ReadyJob :=
  match RoundPayload.forRound humantime checked.config
      ⟨id, checked.prompt, checked.provider, start, defaultRemote, checked.remoteUrl⟩ with
  | .error e => .error (.unpreparable e)
  | .ok payload =>
    .ok
      { payload := { payload with provisionToolchain := request.provisionToolchain }
        config := checked.config
        base := checked.base
        prompt := checked.prompt
        claimed }

/-- Everything `run` checks, and the claim, before the round: what comes of it, and the branches it
created on the remote. -/
def prepareRun : Except RunRefused ReadyJob × List String :=
  match checkRun humantime toml world request with
  | .error refused => (.error refused, [])
  | .ok checked =>
    match request.job with
    | some id =>
      ((world.jobBranchTip id).bind fun start => readyJob humantime request checked id start false,
        [])
    | none =>
      let claim := claimJob defaultRemote world.claim
      match claim.1 with
      | .error e => (.error (.unpreparable (.said e)), claim.2)
      | .ok id => (readyJob humantime request checked id checked.base true, claim.2)

end Preparing

/-! ## Fallible answers -/

section Fallible

variable {ε δ α β : Type} {x : Except ε α} {a : α} {b : β}

/-- An answer that goes on to a result was one. -/
lemma exceptBind_eq_ok {f : α → Except ε β} :
    x.bind f = .ok b ↔ ∃ a, x = .ok a ∧ f a = .ok b := by
  cases x <;> simp [Except.bind]

lemma exceptBind_eq_error {f : α → Except ε β} {e : ε} :
    x.bind f = .error e ↔ x = .error e ∨ ∃ a, x = .ok a ∧ f a = .error e := by
  cases x <;> simp [Except.bind]

lemma exceptMap_eq_ok {f : α → β} : x.map f = .ok b ↔ ∃ a, x = .ok a ∧ f a = b := by
  cases x <;> simp [Except.map]

lemma exceptMapError_eq_ok {f : ε → δ} : x.mapError f = .ok a ↔ x = .ok a := by
  cases x <;> simp [Except.mapError]

end Fallible

/-! ## What a refusal leaves -/

section Refusals

variable {humantime : String → Except String ℕ} {toml : String → Except String RepoConfig}
  {world : PrepareWorld} {request : RunRequest}

lemma runnableProvider_eq_ok_iff {config : RepoConfig} {named : Option String} {provider : String} :
    runnableProvider humantime config named = .ok provider ↔
      provider = config.providerFor named ∧ config.reasonsItCannotRun humantime provider = [] := by
  unfold runnableProvider
  dsimp only
  split
  · rename_i hnone
    rw [Except.ok.injEq]
    constructor
    · rintro rfl
      exact ⟨rfl, hnone⟩
    · rintro ⟨rfl, -⟩
      rfl
  · rename_i hsome
    refine iff_of_false (by simp) ?_
    rintro ⟨rfl, hnone⟩
    exact hsome hnone

/-- A checked job's config can run its provider. -/
lemma reasons_of_checkRun {checked : CheckedJob}
    (h : checkRun humantime toml world request = .ok checked) :
    checked.config.reasonsItCannotRun humantime checked.provider = [] := by
  simp only [checkRun, exceptBind_eq_ok] at h
  obtain ⟨prompt, -, remote, -, cloned, -, base, -, provider, hprovider, h⟩ := h
  split at h
  · cases h
  · obtain rfl := Except.ok.inj h
    cases hrunnable : runnableProvider humantime base.2 request.provider with
    | error problems =>
        rw [hrunnable] at hprovider
        cases hprovider
    | ok found =>
        rw [hrunnable] at hprovider
        obtain rfl := Except.ok.inj hprovider
        exact (runnableProvider_eq_ok_iff.mp hrunnable).2

/-- Nothing can go wrong with a checked job any more. -/
lemma readyJob_of_checkRun {checked : CheckedJob}
    (h : checkRun humantime toml world request = .ok checked) (id : ℕ) (start : PinnedRef)
    (claimed : Bool) : ∃ job, readyJob humantime request checked id start claimed = .ok job := by
  unfold readyJob
  generalize hrequest : (⟨id, checked.prompt, checked.provider, start, defaultRemote,
    checked.remoteUrl⟩ : PayloadRequest) = made
  have hreasons : checked.config.reasonsItCannotRun humantime made.provider = [] := by
    rw [← hrequest]
    exact reasons_of_checkRun h
  obtain ⟨payload, hpayload, -⟩ := RoundPayload.forRound_of_reasonsItCannotRun hreasons
  rw [hpayload]
  exact ⟨_, rfl⟩

/-- **A run that is refused has claimed nothing.** -/
theorem prepareRun_creates (honest : ∀ k, (world.claim k).Honest defaultRemote)
    {refused : RunRefused} (h : (prepareRun humantime toml world request).1 = .error refused) :
    (prepareRun humantime toml world request).2 = [] := by
  unfold prepareRun at h ⊢
  cases hchecked : checkRun humantime toml world request with
  | error e => rfl
  | ok checked =>
      rw [hchecked] at h
      dsimp only at h ⊢
      cases hjob : request.job with
      | some id => rfl
      | none =>
          rw [hjob] at h
          have hcreates := claimJob_creates honest
          unfold ClaimCreates at hcreates
          dsimp only at h ⊢
          cases hclaim : (claimJob defaultRemote world.claim).1 with
          | error e =>
              rw [hclaim] at hcreates
              exact hcreates
          | ok id =>
              obtain ⟨job, hready⟩ := readyJob_of_checkRun hchecked id checked.base true
              rw [hclaim] at h
              dsimp only at h
              rw [hready] at h
              cases h

lemma eq_of_orUnpreparable {α : Type} {answer : Except String α} {refused : RunRefused}
    (h : orUnpreparable answer = .error refused) : ∃ e, refused = .unpreparable (.said e) := by
  cases answer with
  | error e => exact ⟨e, (Except.error.inj h).symm⟩
  | ok a => cases h

lemma ne_of_jobBranchTip {id : ℕ} {refused : RunRefused}
    (h : world.jobBranchTip id = .error refused) (problems : List ConfigError) :
    refused ≠ .configNotRunnable problems := by
  rintro rfl
  unfold PrepareWorld.jobBranchTip at h
  split at h
  · cases h
  · cases h
  · obtain ⟨e, he⟩ := eq_of_orUnpreparable h
    cases he

/-- A check finds a config not runnable for the config at the base and the provider named. -/
lemma checkRun_configNotRunnable {problems : List ConfigError}
    (h : checkRun humantime toml world request = .error (.configNotRunnable problems)) :
    ∃ remote base, world.remoteAndBaseRef request.repo request.baseRef = .ok remote ∧
      baseAndConfig toml world remote.2 = .ok base ∧
      runnableProvider humantime base.2 request.provider = .error problems := by
  have hanswer : ∀ {α : Type} {answer : Except String α},
      orUnpreparable answer ≠ .error (.configNotRunnable problems) := by
    intro α answer hrefused
    obtain ⟨e, he⟩ := eq_of_orUnpreparable hrefused
    cases he
  have hok : ∀ {α : Type} {answer : Except String α} {a : α},
      orUnpreparable answer = .ok a → answer = .ok a := by
    intro α answer a hanswered
    cases answer with
    | error e => cases hanswered
    | ok found => rw [Except.ok.inj hanswered]
  simp only [checkRun, exceptBind_eq_error, hanswer, false_or] at h
  obtain ⟨prompt, -, remote, hremote, cloned, -, base, hbase, hrunnable⟩ := h
  refine ⟨remote, base, hok hremote, hok hbase, ?_⟩
  rcases hrunnable with hproblems | ⟨provider, -, hcancelled⟩
  · cases hprovider : runnableProvider humantime base.2 request.provider with
    | error found =>
        rw [hprovider] at hproblems
        rw [RunRefused.configNotRunnable.inj (Except.error.inj hproblems)]
    | ok provider =>
        rw [hprovider] at hproblems
        cases hproblems
  · split at hcancelled <;> cases hcancelled

/-- A run is refused as not runnable for the config at its base and the provider it is given. -/
theorem prepareRun_configNotRunnable {problems : List ConfigError}
    (h : (prepareRun humantime toml world request).1 = .error (.configNotRunnable problems)) :
    ∃ remote base, world.remoteAndBaseRef request.repo request.baseRef = .ok remote ∧
      baseAndConfig toml world remote.2 = .ok base ∧
      runnableProvider humantime base.2 request.provider = .error problems := by
  unfold prepareRun at h
  cases hchecked : checkRun humantime toml world request with
  | error e =>
      rw [hchecked] at h
      dsimp only at h
      rw [Except.error.inj h] at hchecked
      exact checkRun_configNotRunnable hchecked
  | ok checked =>
      rw [hchecked] at h
      dsimp only at h
      have hready : ∀ id start claimed, readyJob humantime request checked id start claimed ≠
          .error (.configNotRunnable problems) := by
        intro id start claimed herror
        obtain ⟨job, hjob⟩ := readyJob_of_checkRun hchecked id start claimed
        rw [hjob] at herror
        cases herror
      cases hjob : request.job with
      | some id =>
          rw [hjob] at h
          rcases exceptBind_eq_error.mp h with htip | ⟨start, -, herror⟩
          · exact absurd rfl (ne_of_jobBranchTip htip problems)
          · exact absurd herror (hready id start false)
      | none =>
          rw [hjob] at h
          dsimp only at h
          split at h
          · cases h
          · exact absurd h (hready _ _ _)

end Refusals

end AssemblyLine
