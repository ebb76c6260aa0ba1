import AssemblyLine.Daemon.JobDirs
import AssemblyLine.Daemon.Serve
import AssemblyLine.Run.Prepare

/-!
# A submit, as the daemon takes it

`accept` is one submit: the checks in the daemon's own bare cache, the claim and the directory of a
new job, the request's line in the job's log, and the job's place in line.  What git answers on the
way is a `SubmitWorld`, and what the submit can change is a `SubmitState`: the root's files, the
remote's branches and the queue.

Every check but one comes before the claim.  Whether the root still holds a directory under the id
is only seen once the id is claimed; `accept_refused` says what each refusal leaves behind.
-/

namespace AssemblyLine

namespace Api

/-- A job for the daemon, with the ref a new one starts from. -/
structure Submission extends AssemblyLine.Submission where
  baseRef : Option String
deriving DecidableEq, Repr

/-- Why the daemon would not do what it was asked, with every reason.  Nothing in the code reads
`diskFailed`: whether the disk failed under the job's own files. -/
structure Refused where
  summary : String
  reasons : List String
  diskFailed : Bool := false
deriving DecidableEq, Repr

structure Queued where
  job : ℕ
  branch : String
  /-- Settings worth flagging that did not stop the job. -/
  warnings : List String
deriving DecidableEq, Repr

end Api

open Api (Refused Queued)

def refused (summary : String) (reasons : List String) : Refused := { summary, reasons }

def unpreparable (e : String) : Refused := refused e []

/-- `Path::display`, of an absolute path. -/
def displayPath (path : PathBuf) : String := "/" ++ "/".intercalate path

/-- An I/O error's text, as Linux words it. -/
def FileError.text : FileError → String
  | .alreadyExists => "File exists (os error 17)"
  | .notADirectory => "Not a directory (os error 20)"
  | .isADirectory => "Is a directory (os error 21)"

/-! ## A job's directory -/

/-- A job's own base and provider, which a revise starts from. -/
structure Continued where
  paths : JobPaths
  baseRef : String
  provider : String
deriving DecidableEq, Repr

/-- Locate an existing job. -/
def openJob (files : RootFiles) (jobsDir : PathBuf) (id : ℕ) : Except String JobPaths :=
  if files.isDir (jobsDir ++ [toString id]) then .ok ⟨id, jobsDir ++ [toString id]⟩
  else .error s!"no such job: {id}"

/-- `EventLog::read`: a missing file is an empty log. -/
def readLog (json : JsonLines Event) (files : RootFiles) (path : PathBuf) :
    Except String (List Event) :=
  match files.node path with
  | none => .ok []
  | some .dir => .error FileError.isADirectory.text
  | some (.file bytes) =>
    match readEvents json bytes with
    | some events => .ok events
    | none => .error "stream did not contain valid UTF-8"

/-- `EventLog::open_append`, then one `append`. -/
def appendEvent (json : JsonLines Event) (files : RootFiles) (dir : PathBuf) (e : Event) :
    RootFiles × Except FileError Unit :=
  match files.createDirAll [] dir with
  | (files, .error failure) => (files, .error failure)
  | (files, .ok _) =>
    let logged := (files.contents (dir ++ [eventsName])).getD []
    match files.write dir eventsName (logged ++ (utf8 (json.write e) ++ [lineFeed])) with
    | .ok written => (written, .ok ())
    | .error failure => (files, .error failure)

/-- What a repository asks for that no container can give it: a remote that is only a path on the
host. -/
def reasonsAContainerCannotRun (remoteUrl : String) : List String :=
  if isPathOnThisMachine remoteUrl then
    [s!"the remote '{remoteUrl}' is a path on this machine, which a container cannot clone — " ++
      "use --runner local, or point the remote at a network URL"]
  else []

/-! ## The world a submit is taken in -/

/-- What git and the clock answer. -/
structure SubmitWorld where
  initBare : Except String Unit
  /-- Whether the remote lacks the branch of the job that is continued. -/
  lacksJobBranch : Except String Bool
  fetchedSha : String → Except String String
  remoteLacksRef : String → Except String Bool
  fileAtRef : String → Except String (Option String)
  /-- What git does for each attempt of the claim. -/
  claim : ℕ → Attempt
  now : Instant

/-- What a submit can change. -/
structure SubmitState where
  files : RootFiles
  /-- The remote's branches. -/
  branches : List PinnedRef
  queue : JobQueue

/-- A submit that nothing has been claimed for, and that no check refuses. -/
structure CheckedSubmit where
  key : RepoKey
  /-- The job it continues. -/
  continued : Option Continued
  base : PinnedRef
  config : RepoConfig
  provider : String
deriving DecidableEq, Repr

section Accepting

variable (humantime : String → Except String ℕ) (toml : String → Except String RepoConfig)
  (json : JsonLines Event) (runsInAContainer : Bool) (root : PathBuf) (world : SubmitWorld)

/-- The job a revise continues, once it is known to exist, to be idle, and to have a branch to
continue. -/
def continuedFrom (files : RootFiles) (jobsDir : PathBuf) (id : ℕ) (url : String) :
    Except String Continued :=
  (openJob files jobsDir id).bind fun paths =>
  (readLog json files (paths.dir ++ [eventsName])).bind fun events =>
  let report := JobReport.fromEvents id events
  (continuedJob id true report).bind fun provider =>
  match world.lacksJobBranch with
  | .error e => .error e
  | .ok true =>
    .error (s!"job {id} has no branch on {url} — it was deleted, or the job never pushed one, so " ++
      "there is nothing to revise; submit without --job to start a new job")
  | .ok false => .ok ⟨paths, (report.base.map PinnedRef.name).getD "", provider⟩

/-- The job a submit continues, when it names one. -/
def continuedOf (files : RootFiles) (jobsDir : PathBuf) (submission : Api.Submission) :
    Except String (Option Continued) :=
  match submission.job with
  | some id => (continuedFrom json world files jobsDir id submission.remoteUrl).map some
  | none => .ok none

/-- The ref a submit starts from and the provider it names. -/
def baseRefAndProvider (submission : Api.Submission) (continued : Option Continued) :
    Except String (String × Option String) :=
  match continued, submission.baseRef with
  | some job, _ => .ok (job.baseRef, some job.provider)
  | none, some baseRef => .ok (baseRef, submission.provider)
  | none, none => .error "a new job needs a ref to start from"

/-- The base, and the config there: never the job's branch, since a round is not allowed to have
changed the settings that govern the next one. -/
def configAtBase (url baseRef : String) : Except String (PinnedRef × RepoConfig) :=
  (pinned url baseRef (world.fetchedSha baseRef) (world.remoteLacksRef baseRef)).bind fun base =>
  (RepoConfig.fromRef toml base.sha (world.fileAtRef base.sha)).map fun config => (base, config)

/-- Every check of a submit that comes before anything is claimed. -/
def checkSubmit (files : RootFiles) (submission : Api.Submission) : Except Refused CheckedSubmit :=
  let url := submission.remoteUrl
  match RepoKey.fromRemoteUrl url with
  | none => .error (unpreparable (RepoKey.unkeyable url))
  | some key =>
    let containerProblems := if runsInAContainer then reasonsAContainerCannotRun url else []
    if containerProblems ≠ [] then
      .error (refused "the job cannot run on this daemon's runner" containerProblems)
    else
      (world.initBare.mapError fun e =>
        unpreparable s!"preparing {displayPath (key.repoCache root)}: {e}").bind fun _ =>
      ((continuedOf json world files (key.jobsDir root) submission).mapError
        unpreparable).bind fun continued =>
      ((baseRefAndProvider submission continued).mapError unpreparable).bind fun named =>
      ((configAtBase toml world url named.1).mapError unpreparable).bind fun base =>
      ((runnableProvider humantime base.2 named.2).mapError fun problems =>
        refused s!"{repoConfigPath} is not runnable" (problems.map ConfigError.text)).map
        fun provider => ⟨key, continued, base.1, base.2, provider⟩

/-- What a submit is told whose id was claimed while the root still holds the job that had it. -/
def stillHolds (url : String) (jobsDir : PathBuf) (id : ℕ) : Refused :=
  unpreparable (s!"job {id}'s branch was gone from {url}, so its id was claimed again, but " ++
    s!"{displayPath (jobsDir ++ [toString id])} still holds that job — submit again, and the " ++
    "next id will be claimed")

/-- A new job's directory, under the id it claimed at `baseSha`. -/
def newJob (state : SubmitState) (jobsDir : PathBuf) (url baseSha : String) :
    SubmitState × Except Refused JobPaths :=
  let claim := claimJob url world.claim
  let claimed :=
    { state with branches := state.branches ++ claim.2.map fun branch => ⟨branch, baseSha⟩ }
  match claim.1 with
  | .error e => (claimed, .error (unpreparable e))
  | .ok id =>
    match createJob state.files jobsDir id with
    | (files, .ok paths) => ({ claimed with files }, .ok paths)
    | (files, .error .alreadyExists) =>
      ({ claimed with files }, .error (stillHolds url jobsDir id))
    | (files, .error e) =>
      ({ claimed with files },
        .error { unpreparable s!"preparing job {id}'s directory: {e.text}" with
          diskFailed := true })

/-- The request a checked submit records. -/
def CheckedSubmit.request (checked : CheckedSubmit) (submission : Api.Submission) : EventKind :=
  .roundRequested submission.remoteUrl checked.base submission.prompt checked.provider

/-- Record a checked submit's request in its job's log, and put the job in line. -/
def recordRequest (state : SubmitState) (submission : Api.Submission) (checked : CheckedSubmit)
    (paths : JobPaths) : SubmitState × Except Refused Queued :=
  match appendEvent json state.files paths.dir ⟨world.now, checked.request submission⟩ with
  | (files, .error e) =>
    ({ state with files },
      .error
        { unpreparable s!"recording job {paths.id}'s request: {e.text}" with diskFailed := true })
  | (files, .ok _) =>
    ({ state with
        files
        queue := state.queue.enqueue ⟨checked.key, checked.key.jobsDir root, paths.id⟩ },
      .ok
        { job := paths.id
          branch := branchName paths.id
          warnings := checked.config.settingsWorthFlagging.map ConfigWarning.text })

/-- Take one submit: check it, claim its job if it is new, record the request and queue it. -/
def accept (state : SubmitState) (submission : Api.Submission) :
    SubmitState × Except Refused Queued :=
  match checkSubmit humantime toml json runsInAContainer root world state.files submission with
  | .error refused => (state, .error refused)
  | .ok checked =>
    match checked.continued with
    | some job => recordRequest json root world state submission checked job.paths
    | none =>
      match newJob world state (checked.key.jobsDir root) submission.remoteUrl checked.base.sha with
      | (state, .error refused) => (state, .error refused)
      | (state, .ok paths) => recordRequest json root world state submission checked paths

end Accepting

/-! ## What a refusal leaves behind -/

/-- Something under the root already has the place of a job's directory. -/
def PlaceTaken (files : RootFiles) (jobsDir : PathBuf) (id : ℕ) : Prop :=
  (files.node (jobsDir ++ [toString id])).isSome ∨ files.isFile jobsDir = true

section Refusals

variable {humantime : String → Except String ℕ} {toml : String → Except String RepoConfig}
  {json : JsonLines Event} {runsInAContainer : Bool} {root : PathBuf} {world : SubmitWorld}
  {state after : SubmitState} {submission : Api.Submission} {refused : Refused}

/-- A job's directory that is not made leaves the root as it was. -/
lemma createJob_error {files left : RootFiles} {jobsDir : PathBuf} {id : ℕ} {e : FileError}
    (h : createJob files jobsDir id = (left, .error e)) :
    left = files ∧ (e = .alreadyExists → PlaceTaken files jobsDir id) := by
  unfold createJob at h
  cases hall : files.createDirAll [] jobsDir with
  | mk made answer =>
      rw [hall] at h
      cases answer with
      | error failure =>
          obtain ⟨rfl, hfailure⟩ := Prod.mk.inj h
          obtain rfl := Except.error.inj hfailure
          have hfile := FileTree.createDirAll_error FileTree.node_root (congrArg Prod.snd hall)
          rw [hall] at hfile
          exact ⟨hfile.1, fun hexists => .inr (hfile.2 hexists)⟩
      | ok done =>
          have hdir : made.node jobsDir = some .dir :=
            FileTree.node_of_createDirAll FileTree.node_root hall
          by_cases htaken : made.node (jobsDir ++ [toString id]) = none
          · obtain ⟨created, hcreated⟩ := FileTree.exists_createDir hdir htaken
            dsimp only at h
            rw [hcreated] at h
            cases (Prod.mk.inj h).2
          · have hoff : ¬ jobsDir ++ [toString id] <+: [] ++ jobsDir := by
              intro hprefixed
              have hlength := hprefixed.length_le
              simp only [List.length_append, List.length_singleton, List.nil_append] at hlength
              omega
            have hkept : (files.createDirAll [] jobsDir).1.node (jobsDir ++ [toString id]) =
                files.node (jobsDir ++ [toString id]) :=
              FileTree.node_createDirAll_of_not_prefix hoff
            rw [hall] at hkept
            have hsome : (files.node (jobsDir ++ [toString id])).isSome :=
              Option.isSome_iff_ne_none.mpr (hkept ▸ htaken)
            have hthere : files.node ([] ++ jobsDir) = some .dir := FileTree.node_parent hsome
            have hsame := FileTree.createDirAll_of_dir hthere
            obtain rfl : files = made := congrArg Prod.fst (hsame.symm.trans hall)
            refine ⟨?_, fun _ => .inl hsome⟩
            dsimp only at h
            split at h
            · cases (Prod.mk.inj h).2
            · exact (Prod.mk.inj h).1.symm

/-- Recording a request fails only when the disk does. -/
lemma recordRequest_error {checked : CheckedSubmit} {paths : JobPaths}
    (h : (recordRequest json root world state submission checked paths).2 = .error refused) :
    refused.diskFailed = true := by
  unfold recordRequest at h
  split at h
  · rw [← Except.error.inj h]
  · cases h

/-- What is left of a new job that could not be made. -/
lemma newJob_error {jobsDir : PathBuf} {url baseSha : String}
    (honest : ∀ k, (world.claim k).Honest url)
    (h : newJob world state jobsDir url baseSha = (after, .error refused))
    (hdisk : refused.diskFailed = false) :
    after.files = state.files ∧ after.queue = state.queue ∧
      (after.branches = state.branches ∨
        ∃ id, PlaceTaken state.files jobsDir id ∧ refused = stillHolds url jobsDir id ∧
          after.branches = state.branches ++ [⟨branchName id, baseSha⟩]) := by
  have hcreates := claimJob_creates honest
  unfold ClaimCreates at hcreates
  unfold newJob at h
  dsimp only at h
  cases hclaim : (claimJob url world.claim).1 with
  | error e =>
      rw [hclaim] at hcreates h
      obtain ⟨rfl, -⟩ := Prod.mk.inj h
      refine ⟨rfl, rfl, .inl ?_⟩
      simp [hcreates]
  | ok id =>
      rw [hclaim] at hcreates h
      dsimp only at hcreates h
      split at h
      · cases (Prod.mk.inj h).2
      · rename_i left hcreate
        obtain ⟨rfl, hrefused⟩ := Prod.mk.inj h
        obtain ⟨rfl, htaken⟩ := createJob_error hcreate
        refine ⟨rfl, rfl, .inr ⟨id, htaken rfl, (Except.error.inj hrefused).symm, ?_⟩⟩
        simp [hcreates.1]
      · obtain ⟨-, hrefused⟩ := Prod.mk.inj h
        rw [← Except.error.inj hrefused] at hdisk
        cases hdisk

lemma accept_of_unchecked (hchecked : checkSubmit humantime toml json runsInAContainer root world
      state.files submission = .error refused) :
    accept humantime toml json runsInAContainer root world state submission =
      (state, .error refused) := by
  unfold accept
  rw [hchecked]

/-- A checked submit that continues a job records its request there. -/
lemma accept_of_continued {checked : CheckedSubmit} {job : Continued}
    (hchecked : checkSubmit humantime toml json runsInAContainer root world state.files submission =
      .ok checked) (hcontinued : checked.continued = some job) :
    accept humantime toml json runsInAContainer root world state submission =
      recordRequest json root world state submission checked job.paths := by
  unfold accept
  rw [hchecked]
  dsimp only
  rw [hcontinued]

/-- A checked submit that continues no job makes one. -/
lemma accept_of_new {checked : CheckedSubmit}
    (hchecked : checkSubmit humantime toml json runsInAContainer root world state.files submission =
      .ok checked) (hnew : checked.continued = none) :
    accept humantime toml json runsInAContainer root world state submission =
      match newJob world state (checked.key.jobsDir root) submission.remoteUrl checked.base.sha with
      | (state, .error refused) => (state, .error refused)
      | (state, .ok paths) => recordRequest json root world state submission checked paths := by
  unfold accept
  rw [hchecked]
  dsimp only
  rw [hnew]

/-- **What a refused submit leaves behind**, whatever the root and the remote hold: nothing, unless
the id it claimed is one whose place under the root is taken.  Then it leaves that id's branch, at
the base, and nothing else. -/
theorem accept_refused (honest : ∀ k, (world.claim k).Honest submission.remoteUrl)
    (h : (accept humantime toml json runsInAContainer root world state submission).2 =
      .error refused)
    (hdisk : refused.diskFailed = false) :
    let after := (accept humantime toml json runsInAContainer root world state submission).1
    after.files = state.files ∧ after.queue = state.queue ∧
      (after.branches = state.branches ∨
        ∃ checked id,
          checkSubmit humantime toml json runsInAContainer root world state.files submission =
            .ok checked ∧
          checked.continued = none ∧ PlaceTaken state.files (checked.key.jobsDir root) id ∧
          refused = stillHolds submission.remoteUrl (checked.key.jobsDir root) id ∧
          after.branches = state.branches ++ [⟨branchName id, checked.base.sha⟩]) := by
  intro after
  cases hchecked :
      checkSubmit humantime toml json runsInAContainer root world state.files submission with
  | error found =>
      have hafter : after = state := congrArg Prod.fst (accept_of_unchecked hchecked)
      rw [hafter]
      exact ⟨rfl, rfl, .inl rfl⟩
  | ok checked =>
      cases hcontinued : checked.continued with
      | some job =>
          rw [accept_of_continued hchecked hcontinued] at h
          have hfailed := recordRequest_error h
          rw [hfailed] at hdisk
          cases hdisk
      | none =>
          have haccept := accept_of_new hchecked hcontinued
          cases hjob : newJob world state (checked.key.jobsDir root) submission.remoteUrl
              checked.base.sha with
          | mk left answer =>
              rw [hjob] at haccept
              cases answer with
              | ok paths =>
                  rw [haccept] at h
                  have hfailed := recordRequest_error h
                  rw [hfailed] at hdisk
                  cases hdisk
              | error found =>
                  have hafter : after = left := congrArg Prod.fst haccept
                  rw [haccept] at h
                  obtain rfl := Except.error.inj h
                  rw [hafter]
                  obtain ⟨hfiles, hqueue, hbranches⟩ := newJob_error honest hjob hdisk
                  refine ⟨hfiles, hqueue, hbranches.imp_right ?_⟩
                  rintro ⟨id, htaken, hsaid, hleft⟩
                  exact ⟨checked, id, rfl, hcontinued, htaken, hsaid, hleft⟩

end Refusals

/-! ## A job whose branch is gone

The pull request of job 1 is merged and its branch deleted; the root keeps the job's directory. -/

/-- What a repository of one provider declares. -/
def oneProvider : RepoConfig where
  provider := some "claude"
  providers := [("claude", ⟨"claude", ["-p", promptPlaceholder]⟩)]

def oneProviderText : String :=
  "provider = \"claude\"\n[providers.claude]\ncmd = \"claude\"\nargs = [\"-p\", \"\x7bprompt\x7d\"]\n"

/-- What a parser of durations makes of a text that is none. -/
def noDuration (_ : String) : Except String ℕ := .error "expected number at 0"

/-- What a parser of configs makes of that one text. -/
def tomlOf (src : String) : Except String RepoConfig :=
  if src = oneProviderText then .ok oneProvider else .error "not the text of this repository"

def mainSha : String := "4b825dc642cb6eb9a060e54bf8d69288fbee4904"

/-- A remote with no job branch: the first attempt of a claim creates `al/job-1`. -/
def firstClaim : Attempt where
  listed := .ok ⟨0, "", ""⟩
  pushed := .ok ⟨0, "*\t" ++ mainSha ++ ":refs/heads/al/job-1\t[new branch]\n", ""⟩
  created := true

/-- What git answers a submit to a remote that has `main` only. -/
def mainOnly : SubmitWorld where
  initBare := .ok ()
  lacksJobBranch := .ok true
  fetchedSha gitRef := if gitRef = "main" then .ok mainSha else .error "fetch failed (exit 128)"
  remoteLacksRef gitRef := .ok (gitRef ≠ "main")
  fileAtRef _ := .ok (some oneProviderText)
  claim _ := firstClaim
  now := 1786838400000000000

/-- A new job of the repository whose first job the root holds. -/
def secondJob : Api.Submission where
  remoteUrl := "https://git.example.com/team"
  prompt := "second job"
  job := none
  provider := none
  baseRef := some "main"

/-- The root with the first job's directory, and the remote without its branch. -/
noncomputable def branchGone : SubmitState := ⟨teamFiles, [⟨"main", mainSha⟩], .new⟩

lemma firstClaim_honest (remote : String) : firstClaim.Honest remote := by
  intro id hid
  have hfirst : nextId remote firstClaim.listed = .ok 1 := by rfl
  obtain rfl : 1 = id := Except.ok.inj (hfirst.symm.trans hid)
  exact .reported _ [] [] "*" mainSha "[new branch]" (by decide +kernel) (by simp) (by decide)
    (by decide)

/-- What the first job's repository is to be told, and what its remote is left with. -/
lemma accept_secondJob :
    (accept noDuration tomlOf requestJson.toJsonLines false ["srv"] mainOnly branchGone
        secondJob).2 =
      .error (stillHolds secondJob.remoteUrl (teamJob.key.jobsDir ["srv"]) 1) ∧
    (accept noDuration tomlOf requestJson.toJsonLines false ["srv"] mainOnly branchGone
        secondJob).1.branches = [⟨"main", mainSha⟩, ⟨"al/job-1", mainSha⟩] := by
  constructor
  · rfl
  · rfl

/-- **The second submit is refused, and leaves a branch for the id it claimed.** -/
theorem accept_leaves_branch :
    (∀ k, (mainOnly.claim k).Honest secondJob.remoteUrl) ∧
    ∃ refused : Refused,
      (accept noDuration tomlOf requestJson.toJsonLines false ["srv"] mainOnly branchGone
        secondJob).2 = .error refused ∧ refused.diskFailed = false ∧
      (accept noDuration tomlOf requestJson.toJsonLines false ["srv"] mainOnly branchGone
        secondJob).1.branches ≠ branchGone.branches := by
  refine ⟨fun _ => firstClaim_honest _, _, accept_secondJob.1, rfl, ?_⟩
  rw [accept_secondJob.2]
  decide

/-- The first job's directory and its log are as they were. -/
theorem accept_refused_secondJob :
    (accept noDuration tomlOf requestJson.toJsonLines false ["srv"] mainOnly branchGone
      secondJob).1.files = teamFiles :=
  (accept_refused (fun _ => firstClaim_honest _) accept_secondJob.1 rfl).1

end AssemblyLine
