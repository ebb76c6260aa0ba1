import AssemblyLine.Daemon.Submit

/-!
# Names that stand for jobs

A job is found again by two names: its branch on the remote and its directory under the root.  Both
hold its id as it is printed.  A branch is read back by `fromBranchName`, which asks that the name
be the very one the id would be given, so that `branch_names_decode` holds of every name.

A directory is read back by parsing its name, which also takes a plus sign and leading zeros, and
`existingJobIds` does not look whether the entry is a directory.  `job_names_decode_iff` is what
must stand in a directory for its names to decode to the jobs they were made for all the same.
-/

namespace AssemblyLine

/-! ## Branches -/

section Branches

variable {branches : List String}

/-- What a branch's id is, among those listed, is what it was made for. -/
lemma mem_filterMap_fromBranchName {id : ℕ} :
    id ∈ branches.filterMap fromBranchName ↔ id ≤ u64Max ∧ branchName id ∈ branches := by
  rw [List.mem_filterMap]
  constructor
  · rintro ⟨branch, hmem, hid⟩
    obtain ⟨hle, rfl⟩ := fromBranchName_eq_some_iff.mp hid
    exact ⟨hle, hmem⟩
  · rintro ⟨hle, hmem⟩
    exact ⟨branchName id, hmem, fromBranchName_eq_some_iff.mpr ⟨hle, rfl⟩⟩

lemma jobIdPast_eq_one (hnone : ∀ j ≤ u64Max, branchName j ∉ branches) :
    jobIdPast branches = some 1 := by
  have hempty : branches.filterMap fromBranchName = [] := by
    rw [List.eq_nil_iff_forall_not_mem]
    intro id hid
    obtain ⟨hle, hmem⟩ := mem_filterMap_fromBranchName.mp hid
    exact hnone id hle hmem
  simp [jobIdPast, hempty, u64Max]

/-- There is no id past the last there is. -/
lemma jobIdPast_eq_none_iff : jobIdPast branches = none ↔ branchName u64Max ∈ branches := by
  have hlast : jobIdPast branches = none ↔
      u64Max ≤ ((branches.filterMap fromBranchName).max?).getD 0 := by
    simp only [jobIdPast, ite_eq_right_iff, reduceCtorEq, imp_false]
    omega
  rw [hlast]
  constructor
  · intro hle
    cases hmax : (branches.filterMap fromBranchName).max? with
    | none =>
        rw [hmax, Option.getD_none] at hle
        exact absurd hle (by decide)
    | some highest =>
        rw [hmax, Option.getD_some] at hle
        have hlisted := (List.max?_eq_some_iff.mp hmax).1
        obtain ⟨hfits, hmem⟩ := mem_filterMap_fromBranchName.mp hlisted
        rwa [le_antisymm hfits hle] at hmem
  · intro hmem
    have hlisted := mem_filterMap_fromBranchName.mpr ⟨le_refl u64Max, hmem⟩
    cases hmax : (branches.filterMap fromBranchName).max? with
    | none =>
        rw [List.max?_eq_none_iff] at hmax
        rw [hmax] at hlisted
        cases hlisted
    | some highest => exact (List.max?_eq_some_iff.mp hmax).2 _ hlisted

end Branches

/-- **Branch names decode to what was encoded, and the next id is free.**  A `u64` id is read back
from its branch; nothing but an id's branch is read as that id; and the id past a listing is past
every job branch in it and is itself not there: 1 when there is none, and none exactly when the last
id there is has been taken. -/
theorem branch_names_decode :
    (∀ id ≤ u64Max, fromBranchName (branchName id) = some id) ∧
    (∀ (branch : String) (id : ℕ), fromBranchName branch = some id → branch = branchName id) ∧
    ∀ branches : List String,
      (∀ id, jobIdPast branches = some id →
        (∀ j ≤ u64Max, branchName j ∈ branches → j < id) ∧ id ≤ u64Max ∧
          branchName id ∉ branches) ∧
      ((∀ j ≤ u64Max, branchName j ∉ branches) → jobIdPast branches = some 1) ∧
      (jobIdPast branches = none ↔ branchName u64Max ∈ branches) := by
  refine ⟨?_, ?_, fun branches => ⟨?_, jobIdPast_eq_one, jobIdPast_eq_none_iff⟩⟩
  · intro id hid
    exact fromBranchName_eq_some_iff.mpr ⟨hid, rfl⟩
  · intro branch id hid
    exact (fromBranchName_eq_some_iff.mp hid).2
  · intro id hpast
    obtain ⟨-, hfits, hbefore⟩ := jobIdPast_spec hpast
    exact ⟨hbefore, hfits, fun hmem => lt_irrefl id (hbefore id hfits hmem)⟩

/-- The id past a job's branch and three near misses. -/
theorem branch_names_decode_near_misses :
    jobIdPast ["main", "al/job-007", "al/job-2", "al/job-+9"] = some 3 ∧
      branchName 3 ∉ ["main", "al/job-007", "al/job-2", "al/job-+9"] := by
  obtain ⟨-, -, hpast⟩ := branch_names_decode
  have hthree : jobIdPast ["main", "al/job-007", "al/job-2", "al/job-+9"] = some 3 := by
    decide +kernel
  exact ⟨hthree, ((hpast _).1 3 hthree).2.2⟩

/-! ## Directories -/

/-- Where a job's state lives, by its address. -/
def JobAddress.paths (address : JobAddress) : JobPaths := ⟨address.id, address.dir⟩

/-- The ids of the jobs `jobsDir` holds; one that is not there holds none. -/
def existingJobIds (files : RootFiles) (jobsDir : PathBuf) : Except FileError (List ℕ) :=
  match files.node jobsDir with
  | some .dir => .ok ((files.readDir jobsDir).filterMap parseU64)
  | some (.file _) => .error .notADirectory
  | none => if jobsDir.inits.any files.isFile then .error .notADirectory else .ok []

/-- The most recent job, or `none` when there have been none. -/
def latestJobId (files : RootFiles) (jobsDir : PathBuf) : Except FileError (Option ℕ) :=
  (existingJobIds files jobsDir).map List.max?

/-- An entry is a job's: a directory, named as an id is printed. -/
def isJobEntry (files : RootFiles) (jobsDir : PathBuf) (name : String) : Bool :=
  (parseU64 name).any fun id => name = toString id ∧ files.isDir (jobsDir ++ [name])

/-- Each id found in a directory, the latest among them, is opened there. -/
def OpensEach (files : RootFiles) (jobsDir : PathBuf) : Prop :=
  (∀ ids, existingJobIds files jobsDir = .ok ids →
    ∀ id ∈ ids, ∃ paths, openJob files jobsDir id = .ok paths) ∧
  ∀ id, latestJobId files jobsDir = .ok (some id) → ∃ paths, openJob files jobsDir id = .ok paths

/-- The ids found in a directory are those found when every entry that is not a job's is left
out. -/
def IgnoresOthers (files : RootFiles) (jobsDir : PathBuf) : Prop :=
  ∀ ids, existingJobIds files jobsDir = .ok ids →
    ids = ((files.readDir jobsDir).filter (isJobEntry files jobsDir)).filterMap parseU64

/-- The addresses the walk builds are those of the directories they are built from. -/
def AddressesTheirs (json : JsonLines Event) (files : RootFiles) (root : PathBuf) : Prop :=
  ∀ dir ∈ jobDirsBelow files files.depth (root ++ ["jobs"]), ∀ address report,
    addressAndReport json files dir = .ok (some (address, report)) → address.paths.dir = dir

section Directories

variable {json : JsonLines Event} {files : RootFiles} {root jobsDir dir : PathBuf} {id : ℕ}

lemma exists_openJob_iff :
    (∃ paths, openJob files jobsDir id = .ok paths) ↔
      files.isDir (jobsDir ++ [toString id]) = true := by
  unfold openJob
  split <;> simp_all

/-- The ids found are those its names read as. -/
lemma mem_existingJobIds {ids : List ℕ} (h : existingJobIds files jobsDir = .ok ids) :
    id ∈ ids ↔ ∃ name, (files.node (jobsDir ++ [name])).isSome ∧ parseU64 name = some id := by
  unfold existingJobIds at h
  split at h
  · obtain rfl := Except.ok.inj h
    simp only [List.mem_filterMap, FileTree.mem_readDir]
  · cases h
  · rename_i hnone
    split at h
    · cases h
    · obtain rfl := Except.ok.inj h
      refine iff_of_false List.not_mem_nil ?_
      rintro ⟨name, hthere, -⟩
      rw [FileTree.node_parent hthere] at hnone
      cases hnone

lemma existingJobIds_of_entry {name : String} (h : (files.node (jobsDir ++ [name])).isSome) :
    existingJobIds files jobsDir = .ok ((files.readDir jobsDir).filterMap parseU64) := by
  rw [existingJobIds, FileTree.node_parent h]

lemma opensEach_iff : OpensEach files jobsDir ↔
    ∀ name id, (files.node (jobsDir ++ [name])).isSome → parseU64 name = some id →
      files.isDir (jobsDir ++ [toString id]) = true := by
  constructor
  · rintro ⟨hopens, -⟩ name id hthere hparsed
    have hids := existingJobIds_of_entry hthere
    exact exists_openJob_iff.mp
      (hopens _ hids id ((mem_existingJobIds hids).mpr ⟨name, hthere, hparsed⟩))
  · intro howned
    have hopens : ∀ ids, existingJobIds files jobsDir = .ok ids →
        ∀ id ∈ ids, ∃ paths, openJob files jobsDir id = .ok paths := by
      intro ids hids id hid
      obtain ⟨name, hthere, hparsed⟩ := (mem_existingJobIds hids).mp hid
      exact exists_openJob_iff.mpr (howned name id hthere hparsed)
    refine ⟨hopens, fun id hlatest => ?_⟩
    obtain ⟨ids, hids, hmax⟩ : ∃ ids, existingJobIds files jobsDir = .ok ids ∧
        ids.max? = some id := by
      simpa [latestJobId, exceptMap_eq_ok] using hlatest
    exact hopens ids hids id (List.max?_eq_some_iff.mp hmax).1

/-- Leaving entries out changes nothing just when nothing is read of them. -/
lemma filterMap_filter_eq_iff {α β : Type} {f : α → Option β} {p : α → Bool} {l : List α} :
    l.filterMap f = (l.filter p).filterMap f ↔ ∀ a ∈ l, (f a).isSome → p a = true := by
  induction l with
  | nil => simp
  | cons a l ih =>
      have hshorter : ((l.filter p).filterMap f).length ≤ (l.filterMap f).length :=
        (List.filter_sublist.filterMap f).length_le
      cases hp : p a with
      | true =>
          rw [List.filter_cons_of_pos hp, List.forall_mem_cons, ← ih]
          cases hf : f a <;> simp [hf, hp]
      | false =>
          rw [List.filter_cons_of_neg (by simp [hp]), List.forall_mem_cons, ← ih]
          cases hf : f a with
          | none => simp [hf]
          | some b =>
              refine iff_of_false ?_ (by simp [hp])
              intro heq
              have hlength := congrArg List.length heq
              rw [List.filterMap_cons_some hf, List.length_cons] at hlength
              omega

lemma ignoresOthers_iff : IgnoresOthers files jobsDir ↔
    ∀ name id, (files.node (jobsDir ++ [name])).isSome → parseU64 name = some id →
      name = toString id ∧ files.isDir (jobsDir ++ [name]) = true := by
  have hentry : ∀ name id, parseU64 name = some id → (isJobEntry files jobsDir name = true ↔
      name = toString id ∧ files.isDir (jobsDir ++ [name]) = true) := by
    intro name id hparsed
    simp [isJobEntry, hparsed]
  constructor
  · intro hignores name id hthere hparsed
    have hsame := hignores _ (existingJobIds_of_entry hthere)
    have hjobs := filterMap_filter_eq_iff.mp hsame name (FileTree.mem_readDir.mpr hthere)
      (by rw [hparsed]; rfl)
    exact (hentry name id hparsed).mp hjobs
  · intro hjobs ids hids
    have hsame : (files.readDir jobsDir).filterMap parseU64 =
        ((files.readDir jobsDir).filter (isJobEntry files jobsDir)).filterMap parseU64 := by
      refine filterMap_filter_eq_iff.mpr fun name hname hparsed => ?_
      obtain ⟨id, hid⟩ := Option.isSome_iff_exists.mp hparsed
      exact (hentry name id hid).mpr (hjobs name id (FileTree.mem_readDir.mp hname) hid)
    rw [← hsame]
    unfold existingJobIds at hids
    split at hids
    · exact (Except.ok.inj hids).symm
    · cases hids
    · rename_i hnone
      split at hids
      · cases hids
      · obtain rfl := Except.ok.inj hids
        have hempty : files.readDir jobsDir = [] := by
          rw [List.eq_nil_iff_forall_not_mem]
          intro name hname
          rw [FileTree.node_parent (FileTree.mem_readDir.mp hname)] at hnone
          cases hnone
        rw [hempty]
        rfl

/-- A directory's log names a remote that has a key. -/
def KeyedLog (json : JsonLines Event) (files : RootFiles) (dir : PathBuf) : Prop :=
  ∃ events url key, (files.contents (dir ++ [eventsName])).bind (readEvents json) = some events ∧
    (requestedUrls events).head? = some url ∧ RepoKey.fromRemoteUrl url = some key

/-- What the walk makes of a directory: a job's address, when its name reads as an id and its log
names a remote that has a key. -/
lemma addressAndReport_eq_iff {address : JobAddress} :
    (∃ report, addressAndReport json files dir = .ok (some (address, report))) ↔
      ∃ events url, dir.getLast?.bind parseU64 = some address.id ∧
        (files.contents (dir ++ [eventsName])).bind (readEvents json) = some events ∧
        (requestedUrls events).head? = some url ∧
        RepoKey.fromRemoteUrl url = some address.key ∧ address.jobsDir = dir.dropLast := by
  have hremote : ∀ id events, (JobReport.fromEvents id events).remoteUrl =
      (requestedUrls events).head? := fun _ events => remoteUrl_ofEvents events
  constructor
  · rintro ⟨report, h⟩
    unfold addressAndReport at h
    split at h
    · cases h
    · rename_i id hid
      split at h
      · cases h
      · rename_i events hevents
        dsimp only at h
        split at h
        · cases h
        · rename_i key hkey
          obtain ⟨url, hurl, hkeyed⟩ := Option.bind_eq_some_iff.mp hkey
          rw [hremote] at hurl
          cases h
          exact ⟨events, url, hid, hevents, hurl, hkeyed, rfl⟩
  · rintro ⟨events, url, hid, hevents, hurl, hkey, hdir⟩
    refine ⟨JobReport.fromEvents address.id events, ?_⟩
    have hkeyed : (JobReport.fromEvents address.id events).remoteUrl.bind RepoKey.fromRemoteUrl =
        some address.key := by
      rw [hremote, hurl, Option.bind_some, hkey]
    simp only [addressAndReport, hid, hevents, hkeyed]
    rw [← hdir]

lemma addressesTheirs_iff : AddressesTheirs json files root ↔
    ∀ dir ∈ jobDirsBelow files files.depth (root ++ ["jobs"]), ∀ id, KeyedLog json files dir →
      dir.getLast?.bind parseU64 = some id → dir.getLast? = some (toString id) := by
  constructor
  · rintro haddresses dir hdir id ⟨events, url, key, hevents, hurl, hkey⟩ hid
    obtain ⟨report, hreport⟩ : ∃ report,
        addressAndReport json files dir = .ok (some (⟨key, dir.dropLast, id⟩, report)) :=
      addressAndReport_eq_iff.mpr ⟨events, url, hid, hevents, hurl, hkey, rfl⟩
    have hpath := haddresses dir hdir _ _ hreport
    rw [← hpath]
    exact List.getLast?_concat
  · intro hnames dir hdir address report hreport
    obtain ⟨events, url, hid, hevents, hurl, hkey, hparent⟩ :=
      addressAndReport_eq_iff.mp ⟨report, hreport⟩
    have hlast := hnames dir hdir address.id ⟨events, url, address.key, hevents, hurl, hkey⟩ hid
    rw [JobAddress.paths, JobAddress.dir, hparent]
    exact List.dropLast_append_getLast? _ hlast

end Directories

/-- **When directory names decode to the jobs they were made for.**  Each id `existingJobIds`
yields is opened exactly when each number that a name in the directory reads as has a directory
there under the number's own name; entries that are not a job's are ignored exactly when each name
that reads as a number is a directory and that number's own name; and the addresses `jobsUnder`
builds are those of their directories exactly when no directory with a log that names a keyed
remote is named by another spelling of a number. -/
theorem job_names_decode_iff (json : JsonLines Event) (files : RootFiles) (root jobsDir : PathBuf) :
    (OpensEach files jobsDir ↔
      ∀ name id, (files.node (jobsDir ++ [name])).isSome → parseU64 name = some id →
        files.isDir (jobsDir ++ [toString id]) = true) ∧
    (IgnoresOthers files jobsDir ↔
      ∀ name id, (files.node (jobsDir ++ [name])).isSome → parseU64 name = some id →
        name = toString id ∧ files.isDir (jobsDir ++ [name]) = true) ∧
    (AddressesTheirs json files root ↔
      ∀ dir ∈ jobDirsBelow files files.depth (root ++ ["jobs"]), ∀ id, KeyedLog json files dir →
        dir.getLast?.bind parseU64 = some id → dir.getLast? = some (toString id)) :=
  ⟨opensEach_iff, ignoresOthers_iff, addressesTheirs_iff⟩

/-- A directory that someone has copied a job to, under another spelling of its id. -/
def nearMiss : PathBuf := ["srv", "jobs", "git.example.com", "team", "007"]

/-- A root with that directory alone, and the job's log in it. -/
noncomputable def nearMissFiles : RootFiles :=
  (FileTree.empty.createDirAll [] nearMiss).1.put nearMiss eventsName
    (.file (requestedLog "https://git.example.com/team")) (by decide +kernel) (by decide +kernel)

lemma key_of_team : RepoKey.fromRemoteUrl "https://git.example.com/team" = some teamJob.key := by
  decide +kernel

lemma events_nearMiss : (nearMissFiles.contents (nearMiss ++ [eventsName])).bind
    (readEvents requestJson.toJsonLines) = some [requestOf "https://git.example.com/team"] := by
  have hnode : nearMissFiles.node (nearMiss ++ [eventsName]) =
      some (.file (requestedLog "https://git.example.com/team")) := rfl
  rw [FileTree.contents_eq_some_iff.mpr hnode, Option.bind_some]
  exact SharedLog.readEvents_bytesOf _

/-- **Job 7 is found under `007`**, and not where it is looked for. -/
theorem near_miss_taken_for_job :
    existingJobIds nearMissFiles nearMiss.dropLast = .ok [7] ∧
    openJob nearMissFiles nearMiss.dropLast 7 = .error "no such job: 7" ∧
    (∃ report, jobsUnder requestJson.toJsonLines nearMissFiles ["srv"] =
      .ok [(⟨teamJob.key, nearMiss.dropLast, 7⟩, report)]) ∧
    ¬ OpensEach nearMissFiles nearMiss.dropLast ∧ ¬ IgnoresOthers nearMissFiles nearMiss.dropLast ∧
    ¬ AddressesTheirs requestJson.toJsonLines nearMissFiles ["srv"] := by
  have hthere : (nearMissFiles.node (nearMiss.dropLast ++ ["007"])).isSome := rfl
  have hseven : parseU64 "007" = some 7 := by decide +kernel
  have hother : "007" ≠ toString 7 := by decide +kernel
  have hwalk : jobDirsBelow nearMissFiles nearMissFiles.depth (["srv"] ++ ["jobs"]) =
      [nearMiss] := rfl
  refine ⟨rfl, rfl, ?_, ?_, ?_, ?_⟩
  · obtain ⟨report, hreport⟩ : ∃ report,
        addressAndReport requestJson.toJsonLines nearMissFiles nearMiss =
          .ok (some (⟨teamJob.key, nearMiss.dropLast, 7⟩, report)) :=
      addressAndReport_eq_iff.mpr ⟨_, _, hseven, events_nearMiss, rfl, key_of_team, rfl⟩
    refine ⟨report, ?_⟩
    rw [jobsUnder, hwalk, List.mapM_cons, hreport]
    rfl
  · intro hopens
    cases opensEach_iff.mp hopens "007" 7 hthere hseven
  · intro hignores
    exact hother (ignoresOthers_iff.mp hignores "007" 7 hthere hseven).1
  · intro haddresses
    have hown := addressesTheirs_iff.mp haddresses nearMiss
      (by rw [hwalk]; exact List.mem_singleton_self _) 7
      ⟨_, _, _, events_nearMiss, rfl, key_of_team⟩ hseven
    exact hother (Option.some.inj hown)

end AssemblyLine
