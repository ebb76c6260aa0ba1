import AssemblyLine.Daemon.RepoKey
import AssemblyLine.Daemon.Serve
import AssemblyLine.Framework.Files
import AssemblyLine.Log.EventLog

/-!
# The jobs under a root

Job directories and repository directories share one tree, whose names come from remote URLs.  A
job's directory is made by `createJob` and holds an `events.jsonl`, and a daemon that starts finds
its jobs by `jobsUnder`, which walks the tree and tells the two apart by that file.

`Made` is a root as daemons leave it: any jobs, made in any order, among whatever else is written
there.  The walk does not look inside a job's directory, and a repository's path can run through
one, so `found_iff` is the condition under which it finds every job: no job's directory lies below
another's.
-/

namespace AssemblyLine

/-- The name of a job's log in its directory. -/
def eventsName : String := "events.jsonl"

/-- A root's files. -/
abbrev RootFiles := FileTree String (List UInt8)

structure JobPaths where
  id : ℕ
  dir : PathBuf
deriving DecidableEq, Repr

/-- Create the directory layout for a new job; `alreadyExists` when the job has one. -/
def createJob (files : RootFiles) (jobsDir : PathBuf) (id : ℕ) :
    RootFiles × Except FileError JobPaths :=
  match files.createDirAll [] jobsDir with
  | (files, .error e) => (files, .error e)
  | (files, .ok _) =>
    match files.createDir jobsDir (toString id) with
    | .ok made => (made, .ok ⟨id, jobsDir ++ [toString id]⟩)
    | .error e => (files, .error e)

/-! ## The walk -/

/-- The directories below `dir` that hold a log, down to the first on each path; `levels` are left
to look at. -/
def jobDirsBelow (files : RootFiles) : ℕ → PathBuf → List PathBuf
  | 0, _ => []
  | levels + 1, dir =>
    (files.readDir dir).flatMap fun name =>
      match files.isDir (dir ++ [name]), files.isFile (dir ++ [name] ++ [eventsName]) with
      | true, true => [dir ++ [name]]
      | true, false => jobDirsBelow files levels (dir ++ [name])
      | false, _ => []

/-- The address of the job a directory holds, and its report; `none` for a directory whose name is
not a job id or whose log names no remote.  The error is a log that cannot be read. -/
def addressAndReport (json : JsonLines Event) (files : RootFiles) (dir : PathBuf) :
    Except PathBuf (Option (JobAddress × JobReport)) :=
  match dir.getLast?.bind parseU64 with
  | none => .ok none
  | some id =>
    match (files.contents (dir ++ [eventsName])).bind (readEvents json) with
    | none => .error (dir ++ [eventsName])
    | some events =>
      let report := JobReport.fromEvents id events
      match report.remoteUrl.bind RepoKey.fromRemoteUrl with
      | none => .ok none
      | some key => .ok (some (⟨key, dir.dropLast, id⟩, report))

/-- Every job under `root`, with its report and the address the daemon finds it by. -/
def jobsUnder (json : JsonLines Event) (files : RootFiles) (root : PathBuf) :
    Except PathBuf (List (JobAddress × JobReport)) :=
  ((jobDirsBelow files files.depth (root ++ ["jobs"])).mapM (addressAndReport json files)).map
    List.reduceOption

/-! ## What the walk finds -/

section Walking

variable {files : RootFiles} {dir path : PathBuf} {levels : ℕ}

/-- A directory that holds a log, with none that does between `dir` and it. -/
def Outermost (files : RootFiles) (dir path : PathBuf) : Prop :=
  ∃ name rest, path = dir ++ name :: rest ∧ files.isDir path = true ∧
    files.isFile (path ++ [eventsName]) = true ∧
    ∀ above, above <+: rest → above ≠ rest →
      files.isFile (dir ++ name :: above ++ [eventsName]) = false

lemma prefix_of_mem_jobDirsBelow (h : path ∈ jobDirsBelow files levels dir) :
    ∃ name rest, path = dir ++ name :: rest := by
  induction levels generalizing dir with
  | zero => cases h
  | succ levels ih =>
      rw [jobDirsBelow, List.mem_flatMap] at h
      obtain ⟨name, -, h⟩ := h
      split at h
      · exact ⟨name, [], List.mem_singleton.mp h⟩
      · obtain ⟨next, rest, rfl⟩ := ih h
        exact ⟨name, next :: rest, by simp⟩
      · cases h

lemma Outermost.of_below {name : String} (h : Outermost files (dir ++ [name]) path)
    (hunmarked : files.isFile (dir ++ [name] ++ [eventsName]) = false) :
    Outermost files dir path := by
  obtain ⟨next, rest, rfl, hdir, hfile, habove⟩ := h
  refine ⟨name, next :: rest, by simp, hdir, hfile, ?_⟩
  intro above hprefixed hne
  cases above with
  | nil => simpa using hunmarked
  | cons other above =>
      rw [List.cons_prefix_cons] at hprefixed
      obtain ⟨rfl, hprefixed⟩ := hprefixed
      have hshape : dir ++ name :: other :: above = dir ++ [name] ++ other :: above := by simp
      rw [hshape]
      exact habove above hprefixed fun heq => hne (by rw [heq])

/-- **The walk finds the outermost directories that hold a log**, given levels enough. -/
theorem mem_jobDirsBelow (hdeep : files.depth ≤ dir.length + levels) :
    path ∈ jobDirsBelow files levels dir ↔ Outermost files dir path := by
  induction levels generalizing dir with
  | zero =>
      refine iff_of_false (by simp [jobDirsBelow]) ?_
      rintro ⟨name, rest, rfl, hdir, -⟩
      have hlength := FileTree.length_le_depth (by rw [FileTree.isDir_iff.mp hdir]; rfl)
      simp only [List.length_append, List.length_cons] at hlength
      omega
  | succ levels ih =>
      have hnext : ∀ name : String, files.depth ≤ (dir ++ [name]).length + levels := by
        intro name
        rw [List.length_append, List.length_singleton]
        omega
      rw [jobDirsBelow, List.mem_flatMap]
      constructor
      · rintro ⟨name, -, h⟩
        split at h
        · rename_i hdir hfile
          obtain rfl := List.mem_singleton.mp h
          exact ⟨name, [], rfl, hdir, hfile, fun above hprefixed hne =>
            absurd (List.prefix_nil.mp hprefixed) hne⟩
        · rename_i hfile
          exact ((ih (hnext name)).mp h).of_below hfile
        · cases h
      · rintro ⟨name, rest, rfl, hdir, hfile, habove⟩
        have hthere : files.isDir (dir ++ [name]) = true := by
          cases rest with
          | nil => exact hdir
          | cons next rest =>
              have hbelow : (files.node ((dir ++ [name]) ++ next :: rest)).isSome := by
                rw [List.append_assoc, List.singleton_append, FileTree.isDir_iff.mp hdir]
                rfl
              exact FileTree.isDir_iff.mpr (FileTree.node_of_below hbelow)
        refine ⟨name, FileTree.mem_readDir.mpr (by rw [FileTree.isDir_iff.mp hthere]; rfl), ?_⟩
        cases rest with
        | nil =>
            rw [hthere, hfile]
            exact List.mem_singleton_self _
        | cons next rest =>
            have hunmarked := habove [] List.nil_prefix (by simp)
            rw [hthere, hunmarked]
            refine (ih (hnext name)).mpr ⟨next, rest, by simp, hdir, hfile, ?_⟩
            intro above hprefixed hne
            have hshape : dir ++ [name] ++ next :: above = dir ++ name :: next :: above := by simp
            rw [hshape]
            refine habove (next :: above) (List.cons_prefix_cons.mpr ⟨rfl, hprefixed⟩) ?_
            intro heq
            exact hne (List.cons.inj heq).2

/-- No directory is found twice. -/
lemma nodup_jobDirsBelow (files : RootFiles) (levels : ℕ) (dir : PathBuf) :
    (jobDirsBelow files levels dir).Nodup := by
  induction levels generalizing dir with
  | zero => exact List.nodup_nil
  | succ levels ih =>
      rw [jobDirsBelow, List.nodup_flatMap]
      constructor
      · intro name _
        split
        · exact List.nodup_singleton _
        · exact ih _
        · exact List.nodup_nil
      · refine (files.nodup_readDir dir).imp ?_
        intro a b hne
        -- What is found below a name begins with it.
        have hbelow : ∀ name path, path ∈ (match files.isDir (dir ++ [name]),
              files.isFile (dir ++ [name] ++ [eventsName]) with
            | true, true => [dir ++ [name]]
            | true, false => jobDirsBelow files levels (dir ++ [name])
            | false, _ => []) → dir ++ [name] <+: path := by
          intro name path h
          split at h
          · rw [List.mem_singleton.mp h]
          · obtain ⟨next, rest, rfl⟩ := prefix_of_mem_jobDirsBelow h
            exact List.prefix_append _ _
          · cases h
        intro path ha hb
        have hsame := List.prefix_of_prefix_length_le (hbelow a path ha) (hbelow b path hb)
          (by simp)
        rw [List.prefix_append_right_inj, List.cons_prefix_cons] at hsame
        exact hne hsame.1

end Walking

/-! ## A root, as daemons leave it -/

/-- A job made under a root. -/
structure PlacedJob where
  key : RepoKey
  id : ℕ
deriving DecidableEq, Repr

namespace PlacedJob

def dir (job : PlacedJob) (root : PathBuf) : PathBuf := job.key.jobsDir root ++ [toString job.id]

/-- The address the daemon queues the job under. -/
def address (job : PlacedJob) (root : PathBuf) : JobAddress :=
  ⟨job.key, job.key.jobsDir root, job.id⟩

/-- What a job's log holds. -/
def events (json : JsonLines Event) (files : RootFiles) (root : PathBuf) (job : PlacedJob) :
    Option (List Event) :=
  (files.contents (job.dir root ++ [eventsName])).bind (readEvents json)

lemma dir_injective (root : PathBuf) : Function.Injective fun job : PlacedJob => job.dir root := by
  intro a b h
  obtain ⟨hjobs, hid⟩ := List.append_inj' h rfl
  have hsegments : a.key.segments = b.key.segments := by
    simpa [RepoKey.jobsDir] using hjobs
  obtain ⟨⟨asegments⟩, aid⟩ := a
  obtain ⟨⟨bsegments⟩, bid⟩ := b
  obtain rfl : asegments = bsegments := hsegments
  obtain rfl : aid = bid := toString_injective (List.singleton_inj.mp hid)
  rfl

end PlacedJob

/-- The remotes a log's requests name, in order. -/
def requestedUrls (events : List Event) : List String :=
  events.filterMap fun e => match e.kind with
    | .roundRequested remoteUrl _ _ _ => some remoteUrl
    | _ => none

/-- A root with jobs made under it by `createJob`, each for a remote with a key, and each with a
log.  Whatever else is written is no job's log. -/
inductive Made (root : PathBuf) : List PlacedJob → RootFiles → Prop
  | fresh {files : RootFiles} (empty : ∀ rest, files.node (root ++ "jobs" :: rest) = none) :
    Made root [] files
  | job {jobs : List PlacedJob} {files created logged : RootFiles} {url : String} {key : RepoKey}
    {id : ℕ} {paths : JobPaths} {bytes : List UInt8} (made : Made root jobs files)
    (keyed : RepoKey.fromRemoteUrl url = some key) (fits : id ≤ u64Max)
    (create : createJob files (key.jobsDir root) id = (created, .ok paths))
    (log : created.write paths.dir eventsName bytes = .ok logged) :
    Made root (jobs ++ [⟨key, id⟩]) logged
  /-- A job's directory is not made; the directories above it stay. -/
  | refused {jobs : List PlacedJob} {files left : RootFiles} {jobsDir : PathBuf} {id : ℕ}
    {e : FileError} (made : Made root jobs files)
    (refuse : createJob files jobsDir id = (left, .error e)) : Made root jobs left
  /-- A job's log grows, or another file is written. -/
  | write {jobs : List PlacedJob} {files written : RootFiles} {dir : PathBuf} {name : String}
    {bytes : List UInt8} (made : Made root jobs files)
    (own : name = eventsName → ∃ job ∈ jobs, dir = job.dir root)
    (wrote : files.write dir name bytes = .ok written) : Made root jobs written
  | elsewhere {jobs : List PlacedJob} {files other : RootFiles} (made : Made root jobs files)
    (same : ∀ rest, other.node (root ++ "jobs" :: rest) = files.node (root ++ "jobs" :: rest)) :
    Made root jobs other

/-- Nothing but directories is new. -/
def OnlyDirs (files files' : RootFiles) : Prop :=
  ∀ q, files'.node q = files.node q ∨ files.node q = none ∧ files'.node q = some .dir

section OnlyDirs

variable {files files' made : RootFiles} {q : PathBuf}

lemma OnlyDirs.trans (h : OnlyDirs files files') (h' : OnlyDirs files' made) :
    OnlyDirs files made := by
  intro q
  rcases h q with hsame | ⟨hnone, hdir⟩
  · rw [← hsame]
    exact h' q
  · refine .inr ⟨hnone, ?_⟩
    rcases h' q with hsame | ⟨hnone', -⟩
    · rw [hsame, hdir]
    · rw [hdir] at hnone'
      cases hnone'

lemma OnlyDirs.isFile_eq (h : OnlyDirs files files') (q : PathBuf) :
    files'.isFile q = files.isFile q := by
  unfold FileTree.isFile
  rcases h q with hsame | ⟨hnone, hdir⟩
  · rw [hsame]
  · rw [hnone, hdir]

lemma OnlyDirs.dir (h : OnlyDirs files files') (hdir : files.node q = some .dir) :
    files'.node q = some .dir := by
  rcases h q with hsame | ⟨-, hdir'⟩
  · rw [hsame, hdir]
  · exact hdir'

/-- `createJob` makes directories only; the last is the job's own, where there was nothing. -/
lemma createJob_spec (files : RootFiles) (jobsDir : PathBuf) (id : ℕ) :
    OnlyDirs files (createJob files jobsDir id).1 ∧
      ∀ paths, (createJob files jobsDir id).2 = .ok paths →
        paths = ⟨id, jobsDir ++ [toString id]⟩ ∧ files.node paths.dir = none ∧
          (createJob files jobsDir id).1.node paths.dir = some .dir := by
  have hall : OnlyDirs files (files.createDirAll [] jobsDir).1 :=
    fun q => FileTree.node_createDirAll files [] jobsDir q
  unfold createJob
  split
  · rename_i left e hleft
    rw [hleft] at hall
    exact ⟨hall, fun paths h => (nomatch h)⟩
  · rename_i made _ hmade
    rw [hmade] at hall
    dsimp only at hall
    cases hcreate : made.createDir jobsDir (toString id) with
    | error e => exact ⟨hall, fun paths h => (nomatch h)⟩
    | ok created =>
        obtain ⟨-, hnone, hnode⟩ := FileTree.node_of_createDir hcreate
        have hlast : OnlyDirs made created := by
          intro q
          by_cases hq : q = jobsDir ++ [toString id]
          · rw [hnode q, if_pos hq, hq]
            exact .inr ⟨hnone, rfl⟩
          · rw [hnode q, if_neg hq]
            exact .inl rfl
        refine ⟨hall.trans hlast, ?_⟩
        intro paths hpaths
        obtain rfl := Except.ok.inj hpaths
        refine ⟨rfl, ?_, ?_⟩
        · rcases hall (jobsDir ++ [toString id]) with hsame | ⟨habsent, -⟩
          · exact hsame.symm.trans hnone
          · exact habsent
        · exact (hnode _).trans (if_pos rfl)

end OnlyDirs

/-- What always holds of a root that was made. -/
structure MadeInv (root : PathBuf) (jobs : List PlacedJob) (files : RootFiles) : Prop where
  nodup : jobs.Nodup
  fits : ∀ job ∈ jobs, job.id ≤ u64Max
  dirs : ∀ job ∈ jobs, files.node (job.dir root) = some .dir
  /-- Only a job's directory holds a log. -/
  logs : ∀ rest, files.isFile (root ++ "jobs" :: rest ++ [eventsName]) = true ↔
    ∃ job ∈ jobs, root ++ "jobs" :: rest = job.dir root

section Making

variable {root : PathBuf} {jobs : List PlacedJob} {files files' : RootFiles}

lemma MadeInv.of_onlyDirs (inv : MadeInv root jobs files) (h : OnlyDirs files files') :
    MadeInv root jobs files' where
  nodup := inv.nodup
  fits := inv.fits
  dirs job hjob := h.dir (inv.dirs job hjob)
  logs rest := by
    rw [h.isFile_eq]
    exact inv.logs rest

lemma MadeInv.of_write (inv : MadeInv root jobs files) {dir : PathBuf} {name : String}
    {bytes : List UInt8} (own : name = eventsName → ∃ job ∈ jobs, dir = job.dir root)
    (wrote : files.write dir name bytes = .ok files') : MadeInv root jobs files' := by
  obtain ⟨-, hnotdir, hnode⟩ := FileTree.node_of_write wrote
  refine ⟨inv.nodup, inv.fits, ?_, ?_⟩
  · intro job hjob
    rw [hnode, if_neg]
    · exact inv.dirs job hjob
    · intro heq
      exact hnotdir (heq ▸ inv.dirs job hjob)
  · intro rest
    by_cases hq : root ++ "jobs" :: rest ++ [eventsName] = dir ++ [name]
    · obtain ⟨hdir, hname⟩ := List.append_inj' hq rfl
      have hfile : files'.isFile (root ++ "jobs" :: rest ++ [eventsName]) = true := by
        rw [FileTree.isFile_iff, hnode, if_pos hq]
        exact ⟨bytes, rfl⟩
      rw [hdir]
      rw [hdir] at hfile
      exact iff_of_true hfile (own (List.singleton_inj.mp hname).symm)
    · rw [← inv.logs rest, FileTree.isFile_iff, FileTree.isFile_iff, hnode, if_neg hq]

/-- A job that is made has its directory to itself. -/
lemma MadeInv.of_job (inv : MadeInv root jobs files) {key : RepoKey} {id : ℕ} {paths : JobPaths}
    {created : RootFiles} {bytes : List UInt8} (fits : id ≤ u64Max)
    (create : createJob files (key.jobsDir root) id = (created, .ok paths))
    (log : created.write paths.dir eventsName bytes = .ok files') :
    MadeInv root (jobs ++ [⟨key, id⟩]) files' := by
  obtain ⟨honly, hspec⟩ := createJob_spec files (key.jobsDir root) id
  rw [create] at honly hspec
  obtain ⟨rfl, hnone, hdir⟩ := hspec paths rfl
  have hnew : (⟨key, id⟩ : PlacedJob) ∉ jobs := by
    intro hold
    have hthere := inv.dirs _ hold
    change files.node (key.jobsDir root ++ [toString id]) = some .dir at hthere
    rw [hthere] at hnone
    cases hnone
  have hgrown : MadeInv root jobs created := inv.of_onlyDirs honly
  obtain ⟨-, hnotdir, hnode⟩ := FileTree.node_of_write log
  have hkept : ∀ q, created.node q = some .dir → files'.node q = some .dir := by
    intro q hq
    rw [hnode, if_neg]
    · exact hq
    · rintro rfl
      exact hnotdir hq
  refine ⟨?_, ?_, ?_, ?_⟩
  · rw [List.nodup_append]
    refine ⟨inv.nodup, List.nodup_singleton _, ?_⟩
    rintro a ha b hb rfl
    exact hnew (List.mem_singleton.mp hb ▸ ha)
  · intro job hjob
    rcases List.mem_append.mp hjob with hold | hlast
    · exact inv.fits job hold
    · rw [List.mem_singleton.mp hlast]
      exact fits
  · intro job hjob
    rcases List.mem_append.mp hjob with hold | hlast
    · exact hkept _ (hgrown.dirs job hold)
    · rw [List.mem_singleton.mp hlast]
      exact hkept _ hdir
  · intro rest
    by_cases hq : root ++ "jobs" :: rest = key.jobsDir root ++ [toString id]
    · have hfile : files'.isFile (root ++ "jobs" :: rest ++ [eventsName]) = true := by
        rw [FileTree.isFile_iff, hnode, if_pos (by rw [hq])]
        exact ⟨bytes, rfl⟩
      exact iff_of_true hfile ⟨⟨key, id⟩, by simp, hq⟩
    · have hother : files'.isFile (root ++ "jobs" :: rest ++ [eventsName]) =
          created.isFile (root ++ "jobs" :: rest ++ [eventsName]) := by
        unfold FileTree.isFile
        rw [hnode, if_neg fun heq => hq (List.append_inj' heq rfl).1]
      rw [hother, hgrown.logs rest]
      constructor
      · rintro ⟨job, hjob, hdir'⟩
        exact ⟨job, List.mem_append_left _ hjob, hdir'⟩
      · rintro ⟨job, hjob, hdir'⟩
        rcases List.mem_append.mp hjob with hold | hlast
        · exact ⟨job, hold, hdir'⟩
        · rw [List.mem_singleton.mp hlast] at hdir'
          exact absurd hdir' hq

lemma Made.inv (made : Made root jobs files) : MadeInv root jobs files := by
  induction made with
  | fresh empty =>
      refine ⟨List.nodup_nil, by simp, by simp, ?_⟩
      intro rest
      have hnone := empty (rest ++ [eventsName])
      refine iff_of_false ?_ (by simp)
      rw [FileTree.isFile_iff, List.append_assoc, List.cons_append, hnone]
      simp
  | job made keyed fits create log ih => exact ih.of_job fits create log
  | @refused jobs files left jobsDir id e made refuse ih =>
      have honly := (createJob_spec files jobsDir id).1
      rw [refuse] at honly
      exact ih.of_onlyDirs honly
  | write made own wrote ih => exact ih.of_write own wrote
  | elsewhere made same ih =>
      refine ⟨ih.nodup, ih.fits, ?_, ?_⟩
      · intro job hjob
        rw [← ih.dirs job hjob]
        simpa [PlacedJob.dir, RepoKey.jobsDir] using
          same (job.key.segments ++ [toString job.id])
      · intro rest
        rw [← ih.logs rest, FileTree.isFile_iff, FileTree.isFile_iff, List.append_assoc,
          List.cons_append, same]

end Making

/-! ## Finding every job -/

/-- A job's log reads, and its first request names a remote the job's key is made of. -/
def PlacedJob.Logged (json : JsonLines Event) (files : RootFiles) (root : PathBuf)
    (job : PlacedJob) : Prop :=
  ∃ events url, job.events json files root = some events ∧
    (requestedUrls events).head? = some url ∧ RepoKey.fromRemoteUrl url = some job.key

/-- What a daemon is to find of a job. -/
def PlacedJob.found (json : JsonLines Event) (files : RootFiles) (root : PathBuf)
    (job : PlacedJob) : JobAddress × JobReport :=
  (job.address root, .fromEvents job.id ((job.events json files root).getD []))

/-- The walk returns each of the jobs once, and nothing else. -/
def FindsEach (json : JsonLines Event) (root : PathBuf) (jobs : List PlacedJob)
    (files : RootFiles) : Prop :=
  ∃ found, jobsUnder json files root = .ok found ∧
    found.Perm (jobs.map (PlacedJob.found json files root))

/-- The jobs with no other job's directory above theirs. -/
def outermostJobs (root : PathBuf) (jobs : List PlacedJob) : List PlacedJob :=
  jobs.filter fun b => ∀ a ∈ jobs, a.dir root <+: b.dir root → a = b

section Finding

variable {json : JsonLines Event} {root : PathBuf} {jobs : List PlacedJob} {files : RootFiles}
  {job : PlacedJob}

lemma requestedUrls_append (l k : List Event) :
    requestedUrls (l ++ k) = requestedUrls l ++ requestedUrls k :=
  List.filterMap_append

/-- The remote a report names is that of the first request. -/
lemma remoteUrl_ofEvents (events : List Event) :
    (JobProgress.ofEvents events).remoteUrl = (requestedUrls events).head? := by
  induction events using List.reverseRecOn with
  | nil => rfl
  | append_singleton events e ih =>
      rw [JobProgress.ofEvents_snoc, requestedUrls_append, List.head?_append, ← ih]
      obtain ⟨stamp, kind⟩ := e
      cases kind <;> simp [JobProgress.afterEvent, requestedUrls]

/-- A job's directory tells its address. -/
lemma addressAndReport_of_job (fits : job.id ≤ u64Max) (logged : job.Logged json files root) :
    addressAndReport json files (job.dir root) = .ok (some (job.found json files root)) := by
  obtain ⟨events, url, hevents, hurl, hkey⟩ := logged
  have hname : (job.dir root).getLast?.bind parseU64 = some job.id := by
    rw [PlacedJob.dir, List.getLast?_concat, Option.bind_some, parseU64_toString fits]
  have hread : (files.contents (job.dir root ++ [eventsName])).bind (readEvents json) =
      some events := hevents
  have hnamed : (JobReport.fromEvents job.id events).remoteUrl.bind RepoKey.fromRemoteUrl =
      some job.key := by
    have hfirst : (JobReport.fromEvents job.id events).remoteUrl = some url :=
      (remoteUrl_ofEvents events).trans hurl
    rw [hfirst, Option.bind_some, hkey]
  simp only [addressAndReport, hname, hread, hnamed, PlacedJob.found, PlacedJob.address, hevents,
    Option.getD_some]
  rw [PlacedJob.dir, List.dropLast_concat]

lemma PlacedJob.dir_shape (job : PlacedJob) (root : PathBuf) :
    ∃ name rest, job.dir root = root ++ ["jobs"] ++ name :: rest := by
  obtain ⟨name, rest, hnames⟩ :=
    List.exists_cons_of_ne_nil (List.concat_ne_nil (toString job.id) job.key.segments)
  refine ⟨name, rest, ?_⟩
  rw [← hnames]
  simp [dir, RepoKey.jobsDir]

/-- The directories the walk finds are those of the outermost jobs. -/
lemma MadeInv.outermost_iff (inv : MadeInv root jobs files) (path : PathBuf) :
    Outermost files (root ++ ["jobs"]) path ↔
      path ∈ (outermostJobs root jobs).map fun job => job.dir root := by
  have hlogs : ∀ name rest, files.isFile (root ++ ["jobs"] ++ name :: rest ++ [eventsName]) = true ↔
      ∃ job ∈ jobs, root ++ ["jobs"] ++ name :: rest = job.dir root := by
    intro name rest
    simpa using inv.logs (name :: rest)
  rw [List.mem_map]
  constructor
  · rintro ⟨name, rest, rfl, -, hfile, habove⟩
    obtain ⟨job, hjob, hdir⟩ := (hlogs name rest).mp hfile
    refine ⟨job, List.mem_filter.mpr ⟨hjob, ?_⟩, hdir.symm⟩
    rw [decide_eq_true_eq]
    intro other hother hprefixed
    obtain ⟨first, above, hshape⟩ := other.dir_shape root
    rw [hshape, ← hdir, List.prefix_append_right_inj, List.cons_prefix_cons] at hprefixed
    obtain ⟨rfl, hprefixed⟩ := hprefixed
    have hmarked := (hlogs first above).mpr ⟨other, hother, hshape.symm⟩
    have hsame : above = rest := by
      by_contra hne
      rw [habove above hprefixed hne] at hmarked
      cases hmarked
    apply PlacedJob.dir_injective root
    change other.dir root = job.dir root
    rw [hshape, hsame, hdir]
  · rintro ⟨job, hjob, rfl⟩
    obtain ⟨hmem, hfirst⟩ := List.mem_filter.mp hjob
    rw [decide_eq_true_eq] at hfirst
    obtain ⟨name, rest, hshape⟩ := job.dir_shape root
    refine ⟨name, rest, hshape, FileTree.isDir_iff.mpr (inv.dirs job hmem), ?_, ?_⟩
    · rw [hshape]
      exact (hlogs name rest).mpr ⟨job, hmem, hshape.symm⟩
    · intro above hprefixed hne
      by_contra hmarked
      obtain ⟨other, hother, hdir⟩ := (hlogs name above).mp (by simpa using hmarked)
      have hover : other.dir root <+: job.dir root := by
        rw [← hdir, hshape, List.prefix_append_right_inj]
        exact List.cons_prefix_cons.mpr ⟨rfl, hprefixed⟩
      rw [hfirst other hother hover, hshape] at hdir
      exact hne (List.cons.inj (List.append_cancel_left hdir)).2

/-- The walk returns the outermost jobs. -/
theorem jobsUnder_outermost (made : Made root jobs files)
    (logged : ∀ job ∈ jobs, job.Logged json files root) :
    ∃ found, jobsUnder json files root = .ok found ∧
      found.Perm ((outermostJobs root jobs).map (PlacedJob.found json files root)) := by
  have inv := made.inv
  have houter : (outermostJobs root jobs).Nodup := inv.nodup.filter _
  have hperm : (jobDirsBelow files files.depth (root ++ ["jobs"])).Perm
      ((outermostJobs root jobs).map fun job => job.dir root) := by
    rw [List.perm_ext_iff_of_nodup (nodup_jobDirsBelow ..)
      (houter.map (PlacedJob.dir_injective root))]
    intro path
    rw [← inv.outermost_iff]
    exact mem_jobDirsBelow (by omega)
  -- The walk has an order of its own.
  obtain ⟨order, hdirs, horder⟩ : Relation.Comp (fun dirs order =>
      dirs = List.map (fun job : PlacedJob => job.dir root) order) List.Perm
        (jobDirsBelow files files.depth (root ++ ["jobs"])) (outermostJobs root jobs) := by
    rw [List.eq_map_comp_perm]
    exact hperm
  have hread : ∀ order : List PlacedJob, (∀ job ∈ order, job ∈ jobs) →
      (order.map fun job => job.dir root).mapM (addressAndReport json files) =
        .ok (order.map fun job => some (job.found json files root)) := by
    intro order horder
    induction order with
    | nil => rfl
    | cons job order ih =>
        have hmem := horder job List.mem_cons_self
        rw [List.map_cons, List.mapM_cons, addressAndReport_of_job (inv.fits job hmem)
          (logged job hmem), ih fun job hjob => horder job (List.mem_cons_of_mem _ hjob)]
        rfl
  refine ⟨order.map (PlacedJob.found json files root), ?_, horder.map _⟩
  rw [jobsUnder, hdirs, hread order fun job hjob => (List.mem_filter.mp (horder.subset hjob)).1]
  refine congrArg Except.ok ?_
  show List.filterMap id _ = _
  rw [List.filterMap_map]
  exact congrFun List.filterMap_eq_map order

/-- A walk that finds each job finds them all outermost. -/
lemma eq_of_findsEach (made : Made root jobs files)
    (logged : ∀ job ∈ jobs, job.Logged json files root) (finds : FindsEach json root jobs files) :
    ∀ a ∈ jobs, ∀ b ∈ jobs, a.dir root <+: b.dir root → a = b := by
  obtain ⟨found, hfound, hperm⟩ := finds
  obtain ⟨outer, houter, hperm'⟩ := jobsUnder_outermost made logged
  obtain rfl := Except.ok.inj (hfound.symm.trans houter)
  have hlength : (outermostJobs root jobs).length = jobs.length := by
    have hsame := (hperm'.symm.trans hperm).length_eq
    rwa [List.length_map, List.length_map] at hsame
  intro a ha b hb hprefixed
  have hfirst := List.length_filter_eq_length_iff.mp hlength b hb
  rw [decide_eq_true_eq] at hfirst
  exact hfirst a ha hprefixed

/-- **When a restarting daemon finds every job.**  In a root with any jobs made in it, for any
remotes and in any order, `jobsUnder` returns each of them once under the address it was queued
under, and nothing else, exactly when no job's directory lies below another's. -/
theorem findsEach_iff (made : Made root jobs files)
    (logged : ∀ job ∈ jobs, job.Logged json files root) :
    FindsEach json root jobs files ↔
      ∀ a ∈ jobs, ∀ b ∈ jobs, a.dir root <+: b.dir root → a = b := by
  refine ⟨eq_of_findsEach made logged, ?_⟩
  intro hapart
  obtain ⟨found, hfound, hperm⟩ := jobsUnder_outermost made logged
  have hall : outermostJobs root jobs = jobs := by
    refine List.filter_eq_self.mpr ?_
    intro b hb
    rw [decide_eq_true_eq]
    exact fun a ha hprefixed => hapart a ha b hb hprefixed
  rw [hall] at hperm
  exact ⟨found, hfound, hperm⟩

end Finding

/-! ## What a starting daemon reads -/

/-- A daemon's root as it is in the files: the jobs that have a log are those made there, and each
log reads as the job's events. -/
structure Root.InFiles (r : Root) (json : JsonLines Event) (root : PathBuf) (jobs : List PlacedJob)
    (files : RootFiles) : Prop where
  dirs : r.jobDirs.Nodup
  made : ∀ a, a ∈ r.jobDirs ∧ r.events a ≠ [] ↔ ∃ job ∈ jobs, job.address root = a
  logs : ∀ job ∈ jobs, job.events json files root = some (r.events (job.address root))

section Reading

variable {json : JsonLines Event} {root : PathBuf} {jobs : List PlacedJob} {files : RootFiles}
  {r : Root}

lemma PlacedJob.address_injective (root : PathBuf) :
    Function.Injective fun job : PlacedJob => job.address root := by
  rintro ⟨key, id⟩ ⟨key', id'⟩ h
  obtain ⟨rfl, -, rfl⟩ := JobAddress.mk.inj h
  rfl

/-- The directories the root's walk finds are those of the outermost jobs. -/
lemma Root.InFiles.outermostJobs_perm (same : r.InFiles json root jobs files)
    (hnodup : jobs.Nodup) :
    ((outermostJobs root jobs).map fun job => job.address root).Perm r.jobDirsBelow := by
  have houter : (outermostJobs root jobs).Nodup := hnodup.filter _
  have hbelow : r.jobDirsBelow.Nodup := same.dirs.filter _
  rw [List.perm_ext_iff_of_nodup (houter.map (PlacedJob.address_injective root)) hbelow]
  intro a
  rw [Root.mem_jobDirsBelow, ← and_assoc, same.made a, List.mem_map]
  constructor
  · rintro ⟨job, hjob, rfl⟩
    obtain ⟨hmem, hfirst⟩ := List.mem_filter.mp hjob
    rw [decide_eq_true_eq] at hfirst
    refine ⟨⟨job, hmem, rfl⟩, ?_⟩
    intro b hb hlogged hprefixed
    obtain ⟨other, hother, rfl⟩ := (same.made b).mp ⟨hb, hlogged⟩
    rw [hfirst other hother hprefixed]
  · rintro ⟨⟨job, hmem, rfl⟩, houter⟩
    refine ⟨job, List.mem_filter.mpr ⟨hmem, ?_⟩, rfl⟩
    rw [decide_eq_true_eq]
    intro other hother hprefixed
    obtain ⟨hdir, hlogged⟩ := (same.made (other.address root)).mpr ⟨other, hother, rfl⟩
    exact PlacedJob.address_injective root (houter _ hdir hlogged hprefixed)

/-- **What a starting daemon reads is a walk of its root.**  On any files daemons leave, `jobsUnder`
returns what the daemon's root says of some walk of its job directories. -/
theorem jobsUnder_eq_walk (made : Made root jobs files)
    (logged : ∀ job ∈ jobs, job.Logged json files root) (same : r.InFiles json root jobs files) :
    ∃ walk : List JobAddress, walk.Perm r.jobDirsBelow ∧
      jobsUnder json files root = .ok (r.jobsUnder walk) := by
  obtain ⟨found, hfound, hperm⟩ := jobsUnder_outermost made logged
  -- What is found of a job is its address, with its report.
  have hreport : ∀ job ∈ jobs, job.found json files root =
      (job.address root, r.report (job.address root)) := by
    intro job hjob
    rw [PlacedJob.found, same.logs job hjob]
    rfl
  have houter : (outermostJobs root jobs).map (PlacedJob.found json files root) =
      ((outermostJobs root jobs).map fun job => job.address root).map fun a => (a, r.report a) := by
    rw [List.map_map]
    exact List.map_congr_left fun job hjob => hreport job (List.mem_filter.mp hjob).1
  rw [houter] at hperm
  obtain ⟨walk, hwalk, horder⟩ : Relation.Comp (fun found walk =>
      found = List.map (fun a => (a, r.report a)) walk) List.Perm found
        ((outermostJobs root jobs).map fun job => job.address root) := by
    rw [List.eq_map_comp_perm]
    exact hperm
  refine ⟨walk, horder.trans (same.outermostJobs_perm made.inv.nodup), ?_⟩
  rw [hfound, hwalk, Root.jobsUnder, List.filter_eq_self.mpr]
  intro job hjob
  obtain ⟨a, ha, rfl⟩ := List.mem_map.mp hjob
  obtain ⟨placed, hplaced, rfl⟩ := List.mem_map.mp (horder.subset ha)
  have hmem := (List.mem_filter.mp hplaced).1
  obtain ⟨events, url, hevents, hurl, -⟩ := logged placed hmem
  have hread := Option.some.inj (hevents.symm.trans (same.logs placed hmem))
  have hremote : (r.report (placed.address root)).remoteUrl = some url := by
    rw [hread] at hurl
    exact (remoteUrl_ofEvents _).trans hurl
  dsimp only
  rw [hremote]
  rfl

end Reading

/-! ## A repository below a job

`https://git.example.com/team` is one repository, and `https://git.example.com/team/1` another: its
jobs live below the first one's job 1. -/

/-- A request for a job of a remote. -/
def requestOf (remoteUrl : String) : Event :=
  ⟨1786752000000000000, .roundRequested remoteUrl ⟨"main", "c0de"⟩ "fix it" "claude"⟩

def teamJob : PlacedJob := ⟨⟨["git.example.com", "team"]⟩, 1⟩

def jobBelow : PlacedJob := ⟨⟨["git.example.com", "team", "1"]⟩, 1⟩

/-- The two requests as they are written. -/
def requestLines : List (Event × String) :=
  [(requestOf "https://git.example.com/team",
      "\x7b\"at\":\"2026-08-15T00:00:00Z\",\"t\":\"round_requested\"," ++
        "\"remote_url\":\"https://git.example.com/team\"," ++
        "\"base\":\x7b\"name\":\"main\",\"sha\":\"c0de\"\x7d," ++
        "\"prompt\":\"fix it\",\"provider\":\"claude\"\x7d"),
    (requestOf "https://git.example.com/team/1",
      "\x7b\"at\":\"2026-08-15T00:00:00Z\",\"t\":\"round_requested\"," ++
        "\"remote_url\":\"https://git.example.com/team/1\"," ++
        "\"base\":\x7b\"name\":\"main\",\"sha\":\"c0de\"\x7d," ++
        "\"prompt\":\"fix it\",\"provider\":\"claude\"\x7d")]

lemma requestLines_ok : JsonRecords.TableOk requestLines := by
  -- The characters of each part are found before those of the whole line.
  simp only [JsonRecords.TableOk, requestLines, List.forall_mem_cons, String.toList_append]
  decide +kernel

/-- A way of writing events that writes these two as they are written. -/
noncomputable def requestJson : JsonRecords Event := .ofTable requestLines requestLines_ok

/-- The log of a job that has been asked for. -/
noncomputable def requestedLog (remoteUrl : String) : List UInt8 :=
  requestJson.bytesOf [requestOf remoteUrl]

/-- A root in which the first job has been made. -/
noncomputable def teamFiles : RootFiles :=
  (createJob FileTree.empty (teamJob.key.jobsDir ["srv"]) 1).1.put (teamJob.dir ["srv"]) eventsName
    (.file (requestedLog "https://git.example.com/team")) (by decide +kernel) (by decide +kernel)

/-- The root once the second job has been made too. -/
noncomputable def bothFiles : RootFiles :=
  (createJob teamFiles (jobBelow.key.jobsDir ["srv"]) 1).1.put (jobBelow.dir ["srv"]) eventsName
    (.file (requestedLog "https://git.example.com/team/1")) (by decide +kernel) (by decide +kernel)

lemma made_teamFiles : Made ["srv"] [teamJob] teamFiles := by
  have hfresh : Made ["srv"] [] FileTree.empty := .fresh fun rest => by
    simp [FileTree.node, FileTree.empty, List.lookup_cons]
  exact .job hfresh (by decide +kernel : RepoKey.fromRemoteUrl "https://git.example.com/team" = _)
    (by decide) (Prod.ext rfl (by decide +kernel)) (FileTree.write_of_dir _ _)

lemma made_bothFiles : Made ["srv"] [teamJob, jobBelow] bothFiles :=
  .job made_teamFiles
    (by decide +kernel : RepoKey.fromRemoteUrl "https://git.example.com/team/1" = _)
    (by decide) (Prod.ext rfl (by decide +kernel)) (FileTree.write_of_dir _ _)

lemma logged_of_node (url : String) {files : RootFiles} {root : PathBuf} {job : PlacedJob}
    (hnode : files.node (job.dir root ++ [eventsName]) = some (.file (requestedLog url)))
    (hkey : RepoKey.fromRemoteUrl url = some job.key) :
    job.Logged requestJson.toJsonLines files root := by
  refine ⟨[requestOf url], url, ?_, rfl, hkey⟩
  rw [PlacedJob.events, FileTree.contents_eq_some_iff.mpr hnode, Option.bind_some]
  exact SharedLog.readEvents_bytesOf _

lemma logged_bothFiles :
    ∀ job ∈ [teamJob, jobBelow], job.Logged requestJson.toJsonLines bothFiles ["srv"] := by
  rw [List.forall_mem_cons, List.forall_mem_singleton]
  constructor
  · exact logged_of_node "https://git.example.com/team" rfl (by decide +kernel)
  · exact logged_of_node "https://git.example.com/team/1" rfl (by decide +kernel)

/-- **The job below is not found.** -/
theorem job_below_not_found :
    (Made ["srv"] [teamJob, jobBelow] bothFiles ∧
      ∀ job ∈ [teamJob, jobBelow], job.Logged requestJson.toJsonLines bothFiles ["srv"]) ∧
    ¬ FindsEach requestJson.toJsonLines ["srv"] [teamJob, jobBelow] bothFiles := by
  refine ⟨⟨made_bothFiles, logged_bothFiles⟩, ?_⟩
  intro finds
  have hsame := eq_of_findsEach made_bothFiles logged_bothFiles finds teamJob (by simp) jobBelow
    (by simp) (by decide)
  exact absurd hsame (by decide)

/-! Two jobs of each repository, none of them below another: the first one's are its
jobs 2 and 3. -/

/-- The root once its first repository's job 2 has been made, -/
noncomputable def filesOfOne : RootFiles :=
  (createJob FileTree.empty (teamJob.key.jobsDir ["srv"]) 2).1.put
    (teamJob.key.jobsDir ["srv"] ++ ["2"]) eventsName
    (.file (requestedLog "https://git.example.com/team")) (by decide +kernel) (by decide +kernel)

/-- the second one's job 1, -/
noncomputable def filesOfTwo : RootFiles :=
  (createJob filesOfOne (jobBelow.key.jobsDir ["srv"]) 1).1.put (jobBelow.dir ["srv"]) eventsName
    (.file (requestedLog "https://git.example.com/team/1")) (by decide +kernel) (by decide +kernel)

/-- the first one's job 3, -/
noncomputable def filesOfThree : RootFiles :=
  (createJob filesOfTwo (teamJob.key.jobsDir ["srv"]) 3).1.put
    (teamJob.key.jobsDir ["srv"] ++ ["3"]) eventsName
    (.file (requestedLog "https://git.example.com/team")) (by decide +kernel) (by decide +kernel)

/-- and the second one's job 2. -/
noncomputable def filesOfFour : RootFiles :=
  (createJob filesOfThree (jobBelow.key.jobsDir ["srv"]) 2).1.put
    (jobBelow.key.jobsDir ["srv"] ++ ["2"]) eventsName
    (.file (requestedLog "https://git.example.com/team/1")) (by decide +kernel) (by decide +kernel)

def jobsApart : List PlacedJob := [⟨teamJob.key, 2⟩, jobBelow, ⟨teamJob.key, 3⟩, ⟨jobBelow.key, 2⟩]

lemma made_filesOfFour : Made ["srv"] jobsApart filesOfFour := by
  have hteam : RepoKey.fromRemoteUrl "https://git.example.com/team" = some teamJob.key := by
    decide +kernel
  have hbelow : RepoKey.fromRemoteUrl "https://git.example.com/team/1" = some jobBelow.key := by
    decide +kernel
  have hnone : Made ["srv"] [] FileTree.empty := .fresh fun rest => by
    simp [FileTree.node, FileTree.empty, List.lookup_cons]
  have hone : Made ["srv"] [⟨teamJob.key, 2⟩] filesOfOne :=
    .job hnone hteam (by decide) (Prod.ext rfl (by decide +kernel)) (FileTree.write_of_dir _ _)
  have htwo : Made ["srv"] [⟨teamJob.key, 2⟩, jobBelow] filesOfTwo :=
    .job hone hbelow (by decide) (Prod.ext rfl (by decide +kernel)) (FileTree.write_of_dir _ _)
  have hthree : Made ["srv"] [⟨teamJob.key, 2⟩, jobBelow, ⟨teamJob.key, 3⟩] filesOfThree :=
    .job htwo hteam (by decide) (Prod.ext rfl (by decide +kernel)) (FileTree.write_of_dir _ _)
  exact .job hthree hbelow (by decide) (Prod.ext rfl (by decide +kernel))
    (FileTree.write_of_dir _ _)

/-- A daemon that starts on this root finds all four. -/
theorem findsEach_iff_team :
    FindsEach requestJson.toJsonLines ["srv"] jobsApart filesOfFour := by
  refine (findsEach_iff made_filesOfFour ?_).mpr (by decide +kernel)
  simp only [jobsApart, List.forall_mem_cons]
  refine ⟨?_, ?_, ?_, ?_, by simp⟩
  · exact logged_of_node "https://git.example.com/team" rfl (by decide +kernel)
  · exact logged_of_node "https://git.example.com/team/1" rfl (by decide +kernel)
  · exact logged_of_node "https://git.example.com/team" rfl (by decide +kernel)
  · exact logged_of_node "https://git.example.com/team/1" rfl (by decide +kernel)

end AssemblyLine
