import AssemblyLine.Runner.Kubectl

/-!
# What a round leaves in its cluster

The cluster holds objects by kind and name, and `kubectl` is taken to keep its word
(`KubectlKeepsItsWord`): `create` makes what it is given or nothing, whatever it answers, and
`delete` takes away what it names when it says so.  Others may delete a round's objects at any
moment, as the cluster's own garbage collector does, and a daemon may be killed at any moment.

`Accounted` is what every call of a round keeps: its Job is the one that was asked for, and its
Secret is owned by the uid of that Job.  So a Secret that is left is one the garbage collector
takes with its Job (`secret_goes_with_its_job`), and nothing is left of a round that is settled
(`settled_round_leaves_nothing`).  What is secret is given to the Secret alone
(`secrets_stay_out_of_sight`).
-/

namespace AssemblyLine

/-! ## The cluster -/

inductive ObjectKind
  | job
  | secret
deriving DecidableEq, Repr

namespace ObjectKind

/-- The kind, as an argument of `kubectl`. -/
def arg : ObjectKind → String
  | job => "job"
  | secret => "secret"

/-- The kind, as a manifest names it. -/
def title : ObjectKind → String
  | job => "Job"
  | secret => "Secret"

end ObjectKind

/-- An object, by the manifest it was created from. -/
structure ClusterObject where
  uid : String
  manifest : Json

/-- The objects of the runner's namespace. -/
def Cluster : Type := ObjectKind → String → Option ClusterObject

namespace Cluster

/-- The cluster with another object, or none, under a name. -/
def put (s : Cluster) (kind : ObjectKind) (name : String) (object : Option ClusterObject) :
    Cluster :=
  fun k n => if k = kind ∧ n = name then object else s k n

@[simp] lemma put_same (s : Cluster) (kind : ObjectKind) (name : String)
    (object : Option ClusterObject) : s.put kind name object kind name = object := by simp [put]

lemma put_other {s : Cluster} {kind k : ObjectKind} {name n : String}
    {object : Option ClusterObject} (h : k ≠ kind) : s.put kind name object k n = s k n :=
  if_neg fun hsame => h hsame.1

/-- A manifest's object is of this kind and has this name. -/
def Describes (manifest : Json) (kind : ObjectKind) (name : String) : Prop :=
  manifest.textAt ["kind"] = some kind.title ∧ manifest.textAt ["metadata", "name"] = some name

/-- The Job that owns a manifest's object, by name and uid. -/
def ownerOf (manifest : Json) : Option (String × String) := do
  let name ← manifest.textAt ["metadata", "ownerReferences", "0", "name"]
  let uid ← manifest.textAt ["metadata", "ownerReferences", "0", "uid"]
  return (name, uid)

/-- The garbage collector has nothing left to delete: what a Job owns is there with its Job. -/
def Collected (s : Cluster) : Prop :=
  ∀ kind name object owner uid, s kind name = some object →
    ownerOf object.manifest = some (owner, uid) → ∃ job, s .job owner = some job ∧ job.uid = uid

/-- What others do: a name is one round's alone, so that they at most delete what has it. -/
def DriftsAround (name : String) (s t : Cluster) : Prop :=
  ∀ kind, t kind name = s kind name ∨ t kind name = none

/-- Nothing has this name. -/
def Lacks (s : Cluster) (name : String) : Prop := s .job name = none ∧ s .secret name = none

end Cluster

/-- How a cluster acts on calls. -/
abbrev ClusterActs : Type :=
  (c : KubectlCall) → Option String → Cluster → KubectlCall.Answer c → Cluster → Prop

open KubernetesRunner in
/-- What is relied on of `kubectl` and of the cluster behind it. -/
structure KubectlKeepsItsWord (runner : KubernetesRunner) (json : JsonText) (acts : ClusterActs) :
    Prop where
  /-- What `create` is given is made, under a name that is free, or it is not, whatever is said of
  it. -/
  creates : ∀ args text s answer t,
    acts (.output (runner.kubectl (createArgs ++ args))) (some text) s answer t →
    t = s ∨ ∃ manifest kind name object, json.read text = .ok manifest ∧
      Cluster.Describes manifest kind name ∧ s kind name = none ∧ object.manifest = manifest ∧
      t = s.put kind name (some object)
  /-- A `create` that succeeds and prints what it made prints its uid. -/
  tells : ∀ text s stdout stderr t,
    acts (.output (runner.kubectl (createArgs ++ ["-o", "json"]))) (some text) s
      (.ended true stdout stderr) t →
    ∃ manifest kind name object created, json.read text = .ok manifest ∧
      Cluster.Describes manifest kind name ∧ t kind name = some object ∧
      json.read (fromUtf8Lossy stdout) = .ok created ∧
      created.textAt ["metadata", "uid"] = some object.uid
  /-- A `delete` that succeeds leaves nothing; one that does not may have deleted too. -/
  deletes : ∀ (kind : ObjectKind) name given s answer t,
    acts (.output (runner.kubectl (deleteArgs kind.arg name))) given s answer t →
    t = s ∧ answer.succeeded = false ∨ t = s.put kind name none
  /-- Nothing else changes anything. -/
  reads : ∀ c given s answer t, acts c given s answer t →
    (∀ rest, c ≠ .output (runner.kubectl ("create" :: rest))) →
    (∀ rest, c ≠ .output (runner.kubectl ("delete" :: rest))) → t = s

/-- Every `delete` is answered with success. -/
def DeletesSucceed (runner : KubernetesRunner) (acts : ClusterActs) : Prop :=
  ∀ (kind : ObjectKind) name given s answer t,
    acts (.output (runner.kubectl (KubernetesRunner.deleteArgs kind.arg name))) given s answer t →
    answer.succeeded = true

/-- The documents a round writes are read back as they were written. -/
structure ReadsBackManifests (json : JsonText) (runner : KubernetesRunner) (spec : LaunchSpec)
    (deadline : Option ℕ) (secrets : JobSecrets) : Prop where
  job : json.ReadsBack (jobManifest spec.name runner.image spec.args deadline)
  secret : ∀ uid, json.ReadsBack (secretManifest spec.name uid secrets)

/-! ## What is created is what was meant -/

section Manifests

variable {name image uid : String} {args : List String} {deadline : Option ℕ}
  {secrets : JobSecrets}

lemma describes_jobManifest {kind : ObjectKind} {other : String} :
    Cluster.Describes (jobManifest name image args deadline) kind other ↔
      kind = .job ∧ other = name := by
  cases kind <;>
    simp [Cluster.Describes, jobManifest, Json.textAt, Json.pointer, Json.get, Json.asText,
      ObjectKind.title, eq_comm]

lemma describes_secretManifest {kind : ObjectKind} {other : String} :
    Cluster.Describes (secretManifest name uid secrets) kind other ↔
      kind = .secret ∧ other = name := by
  cases kind <;>
    simp [Cluster.Describes, secretManifest, Json.textAt, Json.pointer, Json.get, Json.asText,
      ObjectKind.title, eq_comm]

/-- The owner a Secret names is its Job. -/
lemma ownerOf_secretManifest :
    Cluster.ownerOf (secretManifest name uid secrets) = some (name, uid) := by
  have hindex : Json.arrayIndex "0" = some 0 := by decide
  simp [Cluster.ownerOf, secretManifest, Json.textAt, Json.pointer, Json.get, Json.asText, hindex]

end Manifests

/-! ## Calls that create nothing -/

namespace KubernetesRunner

variable {runner : KubernetesRunner} {json : JsonText} {name : String}

lemma kubectl_inj {args args' : List String} :
    runner.kubectl args = runner.kubectl args' ↔ args = args' := by
  rw [kubectl, kubectl, List.append_cancel_left_eq]
  simp

/-- A call that is given nothing, and changes nothing but for one that deletes what has the round's
name. -/
def CreatesNothing (runner : KubernetesRunner) (name : String) (c : KubectlCall)
    (given : Option String) : Prop :=
  given = none ∧ ((∃ kind : ObjectKind, c = .output (runner.kubectl (deleteArgs kind.arg name))) ∨
    (∀ rest, c ≠ .output (runner.kubectl ("create" :: rest))) ∧
      ∀ rest, c ≠ .output (runner.kubectl ("delete" :: rest)))

/-- A program of which no call creates anything. -/
abbrev CreatesNowhere {α : Type} (runner : KubernetesRunner) (name : String) (p : Kubectl α) :
    Prop :=
  p.All (runner.CreatesNothing name)

lemma createsNothing_output {verb : String} {args : List String} (hcreate : verb ≠ "create")
    (hdelete : verb ≠ "delete") :
    runner.CreatesNothing name (.output (runner.kubectl (verb :: args))) none := by
  refine ⟨rfl, .inr ⟨fun rest h => ?_, fun rest h => ?_⟩⟩
  · exact hcreate (List.cons.inj (kubectl_inj.mp (KubectlCall.output.inj h))).1
  · exact hdelete (List.cons.inj (kubectl_inj.mp (KubectlCall.output.inj h))).1

lemma createsNothing_other {c : KubectlCall} (h : ∀ args, c ≠ .output args) :
    runner.CreatesNothing name c none :=
  ⟨rfl, .inr ⟨fun _ => h _, fun _ => h _⟩⟩

lemma createsNowhere_progress (job : String) :
    runner.CreatesNowhere name (runner.progress json job) := by
  refine .tryBind (.tryBind ⟨?_, fun _ => trivial⟩ fun _ => trivial) fun _ => trivial
  exact createsNothing_output (by decide) (by decide)

lemma createsNowhere_attemptProgress (job : String) (left : ℕ) :
    runner.CreatesNowhere name (runner.attemptProgress json job left) := by
  induction left with
  | zero =>
      refine (createsNowhere_progress job).bind ?_
      rintro (e | progress) <;> trivial
  | succ left ih =>
      refine (createsNowhere_progress job).bind ?_
      rintro (e | progress)
      · exact ⟨createsNothing_other nofun, fun _ => ih⟩
      · trivial

lemma createsNowhere_progressDespiteBlips (job : String) :
    runner.CreatesNowhere name (runner.progressDespiteBlips json job) :=
  createsNowhere_attemptProgress job _

lemma createsNowhere_pollUntilStarted (job : String) (elapsed : ℕ) :
    runner.CreatesNowhere name (runner.pollUntilStarted json job elapsed) :=
  all_pollUntilStarted (createsNowhere_progressDespiteBlips job) (createsNothing_other nofun)
    (createsNothing_other nofun) elapsed

lemma createsNowhere_unlessCancelled {α : Type} {dropped : α} {p : Kubectl α}
    (h : runner.CreatesNowhere name p) : runner.CreatesNowhere name (unlessCancelled dropped p) :=
  h.unlessAsked (createsNothing_other nofun)

lemma createsNowhere_follow (pod : String) :
    runner.CreatesNowhere name (runner.follow pod) := by
  refine ⟨createsNothing_other nofun, ?_⟩
  rintro (e | spawned)
  · trivial
  · exact ⟨createsNothing_other nofun, fun _ => trivial⟩

lemma createsNowhere_startAndFollow (job : String) :
    runner.CreatesNowhere name (runner.startAndFollow json job) :=
  (createsNowhere_unlessCancelled (createsNowhere_pollUntilStarted job 0)).tryBind
    fun pod => createsNowhere_follow pod

lemma createsNowhere_reattach (handle : RoundHandle) :
    runner.CreatesNowhere name (runner.reattach json handle) := by
  cases handle with
  | localRun pid frames => trivial
  | docker container => trivial
  | kubernetes job =>
      refine (createsNowhere_progressDespiteBlips job).tryBind fun progress => ?_
      cases progress with
      | gone => trivial
      | running pod => exact createsNowhere_follow pod
      | finished pod code reason => exact createsNowhere_follow pod
      | waiting reason =>
          exact (createsNowhere_pollUntilStarted job 0).tryBind fun pod =>
            createsNowhere_follow pod

lemma createsNowhere_streamAfterFollowEnded (job pod : String) (round : KubernetesRound) :
    runner.CreatesNowhere name (runner.streamAfterFollowEnded json job pod round) := by
  have hspawn : ∀ args, runner.CreatesNothing name (.spawn args) none := fun args =>
    createsNothing_other nofun
  refine (createsNowhere_progressDespiteBlips job).bind fun progress => ?_
  rcases progress with e | (_ | reason | pod' | ⟨pod', code, reason⟩)
  · trivial
  · trivial
  · trivial
  · dsimp only
    split
    · trivial
    · refine ⟨createsNothing_other nofun, fun _ => ⟨hspawn _, ?_⟩⟩
      rintro (e | spawned) <;> trivial
  · refine ⟨hspawn _, ?_⟩
    rintro (e | spawned) <;> trivial

lemma createsNowhere_deleteJobAndSecret :
    runner.CreatesNowhere name (runner.deleteJobAndSecret name) :=
  ⟨⟨rfl, .inl ⟨.job, rfl⟩⟩, fun _ => ⟨⟨rfl, .inl ⟨.secret, rfl⟩⟩, fun _ => trivial⟩⟩

lemma createsNowhere_lastProgress (job : String) (abandonedBecause : Option String) :
    runner.CreatesNowhere name (runner.lastProgress json job abandonedBecause) := by
  cases abandonedBecause with
  | some reason => trivial
  | none => exact createsNowhere_progressDespiteBlips job

lemma createsNowhere_turn (turn : RoundTurn) :
    runner.CreatesNowhere name (runner.turn json name turn) := by
  cases turn with
  | readOn pod round =>
      exact createsNowhere_unlessCancelled
        ((createsNowhere_streamAfterFollowEnded name pod round).bind fun _ => trivial)
  | cancel => exact createsNowhere_deleteJobAndSecret

end KubernetesRunner

/-! ## What every call keeps -/

/-- What a round has in the cluster: a Job that is the one asked for, and a Secret with what the
round is sent, which that Job owns. -/
structure Accounted (runner : KubernetesRunner) (spec : LaunchSpec) (deadline : Option ℕ)
    (secrets : JobSecrets) (s : Cluster) : Prop where
  job : ∀ job, s .job spec.name = some job →
    job.manifest = jobManifest spec.name runner.image spec.args deadline
  secret : ∀ secret, s .secret spec.name = some secret →
    ∃ uid, secret.manifest = secretManifest spec.name uid secrets ∧
      ∀ job, s .job spec.name = some job → job.uid = uid

/-- A Job that was created has the uid that was printed, and there is no Secret yet. -/
structure JobCreated (runner : KubernetesRunner) (spec : LaunchSpec) (deadline : Option ℕ)
    (uid : String) (s : Cluster) : Prop where
  job : ∀ job, s .job spec.name = some job →
    job.manifest = jobManifest spec.name runner.image spec.args deadline ∧ job.uid = uid
  secret : s .secret spec.name = none

section Keeping

variable {runner : KubernetesRunner} {json : JsonText} {acts : ClusterActs}
  {spec : LaunchSpec} {deadline : Option ℕ} {secrets : JobSecrets} {s t : Cluster} {uid : String}

lemma Accounted.of_jobCreated (h : JobCreated runner spec deadline uid s) :
    Accounted runner spec deadline secrets s :=
  ⟨fun job hjob => (h.job job hjob).1, fun secret hsecret => by
    rw [h.secret] at hsecret
    cases hsecret⟩

lemma JobCreated.of_lacks (h : s.Lacks spec.name) (uid : String) :
    JobCreated runner spec deadline uid s := by
  refine ⟨fun job hjob => ?_, h.2⟩
  rw [h.1] at hjob
  cases hjob

/-- Deleting either of a round's objects, or both, leaves it accounted for. -/
lemma Accounted.drift (h : Accounted runner spec deadline secrets s)
    (hdrift : Cluster.DriftsAround spec.name s t) : Accounted runner spec deadline secrets t := by
  have hjob : ∀ job, t .job spec.name = some job → s .job spec.name = some job := by
    intro job hsome
    rcases hdrift .job with hsame | hnone
    · rwa [← hsame]
    · rw [hnone] at hsome
      cases hsome
  refine ⟨fun job hsome => h.job job (hjob job hsome), fun secret hsome => ?_⟩
  rcases hdrift .secret with hsame | hnone
  · rw [hsame] at hsome
    obtain ⟨uid, hmanifest, howner⟩ := h.secret secret hsome
    exact ⟨uid, hmanifest, fun job hsome => howner job (hjob job hsome)⟩
  · rw [hnone] at hsome
    cases hsome

lemma JobCreated.drift (h : JobCreated runner spec deadline uid s)
    (hdrift : Cluster.DriftsAround spec.name s t) : JobCreated runner spec deadline uid t := by
  constructor
  · intro job hsome
    rcases hdrift .job with hsame | hnone
    · exact h.job job (by rwa [← hsame])
    · rw [hnone] at hsome
      cases hsome
  · rcases hdrift .secret with hsame | hnone
    · rw [hsame, h.secret]
    · exact hnone

lemma Cluster.Lacks.drift {name : String} (h : s.Lacks name)
    (hdrift : Cluster.DriftsAround name s t) : t.Lacks name := by
  constructor
  · rcases hdrift .job with hsame | hnone
    · rw [hsame, h.1]
    · exact hnone
  · rcases hdrift .secret with hsame | hnone
    · rw [hsame, h.2]
    · exact hnone

/-- What a round deletes is only taken away. -/
lemma driftsAround_put (name : String) (kind : ObjectKind) :
    Cluster.DriftsAround name s (s.put kind name none) := by
  intro k
  by_cases hk : k = kind
  · subst hk
    exact .inr (Cluster.put_same s k name none)
  · exact .inl (Cluster.put_other hk)

/-- A call that creates nothing is as if others had acted. -/
lemma driftsAround_of_createsNothing {name : String} {c : KubectlCall} {given : Option String}
    {answer : KubectlCall.Answer c} (word : KubectlKeepsItsWord runner json acts)
    (hc : runner.CreatesNothing name c given) (acted : acts c given s answer t) :
    Cluster.DriftsAround name s t := by
  rcases hc.2 with ⟨kind, rfl⟩ | ⟨hcreate, hdelete⟩
  · rcases word.deletes kind name given s answer t acted with ⟨rfl, -⟩ | rfl
    · exact fun _ => .inl rfl
    · exact driftsAround_put name kind
  · obtain rfl := word.reads c given s answer t acted hcreate hdelete
    exact fun _ => .inl rfl

end Keeping

/-! ## Every program of a round -/

section Programs

open Calls

variable {runner : KubernetesRunner} {json : JsonText} {acts : ClusterActs}
  {spec : LaunchSpec} {deadline : Option ℕ} {secrets : JobSecrets} {α : Type} {p : Kubectl α}

/-- A program that creates nothing keeps a round accounted for. -/
lemma triple_of_createsNowhere (word : KubectlKeepsItsWord runner json acts)
    (h : runner.CreatesNowhere spec.name p) :
    Triple acts (Cluster.DriftsAround spec.name) (Accounted runner spec deadline secrets)
      (Accounted runner spec deadline secrets) p
      fun _ => Accounted runner spec deadline secrets :=
  .all h (fun _ _ _ _ _ hc hs acted => hs.drift (driftsAround_of_createsNothing word hc acted))
    fun _ _ hs drifted => hs.drift drifted

/-- What is there once a document was printed of what was created. -/
def AfterCreate (runner : KubernetesRunner) (spec : LaunchSpec) (deadline : Option ℕ)
    (secrets : JobSecrets) (created : Json) (s : Cluster) : Prop :=
  Accounted runner spec deadline secrets s ∧
    ∀ uid, created.textAt ["metadata", "uid"] = some uid → JobCreated runner spec deadline uid s

lemma AfterCreate.drift {created : Json} {s t : Cluster}
    (h : AfterCreate runner spec deadline secrets created s)
    (hdrift : Cluster.DriftsAround spec.name s t) :
    AfterCreate runner spec deadline secrets created t :=
  ⟨h.1.drift hdrift, fun uid huid => (h.2 uid huid).drift hdrift⟩

/-- What is there once the Job's `create` has been answered. -/
def JobAnswered (json : JsonText) (runner : KubernetesRunner) (spec : LaunchSpec)
    (deadline : Option ℕ) (secrets : JobSecrets) (answer : CommandAnswer) (s : Cluster) : Prop :=
  Accounted runner spec deadline secrets s ∧
    ∀ stdout stderr created, answer = .ended true stdout stderr →
      json.read (fromUtf8Lossy stdout) = .ok created →
      AfterCreate runner spec deadline secrets created s

lemma JobAnswered.drift {answer : CommandAnswer} {s t : Cluster}
    (h : JobAnswered json runner spec deadline secrets answer s)
    (hdrift : Cluster.DriftsAround spec.name s t) :
    JobAnswered json runner spec deadline secrets answer t :=
  ⟨h.1.drift hdrift, fun stdout stderr created hended hread =>
    (h.2 stdout stderr created hended hread).drift hdrift⟩

/-- The Job's `create` leaves the Job, or nothing; and what it prints has the Job's uid. -/
lemma jobAnswered_of_acts (word : KubectlKeepsItsWord runner json acts)
    (reads : ReadsBackManifests json runner spec deadline secrets) {s t : Cluster}
    {answer : CommandAnswer} (hs : s.Lacks spec.name)
    (acted : acts (.output (runner.kubectl (KubernetesRunner.createArgs ++ ["-o", "json"])))
      (some (json.write (jobManifest spec.name runner.image spec.args deadline))) s answer t) :
    JobAnswered json runner spec deadline secrets answer t := by
  rcases word.creates _ _ _ _ _ acted with
    rfl | ⟨manifest, kind, name, object, hread, hdescribes, -, hmanifest, rfl⟩
  · have hcreated := @JobCreated.of_lacks runner spec deadline _ hs
    exact ⟨.of_jobCreated (hcreated ""), fun _ _ _ _ _ =>
      ⟨.of_jobCreated (hcreated ""), fun uid _ => hcreated uid⟩⟩
  · obtain rfl := Except.ok.inj (reads.job.symm.trans hread)
    obtain ⟨rfl, rfl⟩ := describes_jobManifest.mp hdescribes
    have hcreated : JobCreated runner spec deadline object.uid
        (s.put .job spec.name (some object)) := by
      refine ⟨fun job hjob => ?_, ?_⟩
      · rw [Cluster.put_same] at hjob
        obtain rfl := Option.some.inj hjob
        exact ⟨hmanifest, rfl⟩
      · rw [Cluster.put_other (by decide), hs.2]
    refine ⟨.of_jobCreated hcreated, ?_⟩
    rintro stdout stderr created rfl hprinted
    refine ⟨.of_jobCreated hcreated, fun uid huid => ?_⟩
    obtain ⟨manifest, kind, name, object', printed, hread, hdescribes, hobject, hprinted', huid'⟩ :=
      word.tells _ _ _ _ _ acted
    obtain rfl := Except.ok.inj (reads.job.symm.trans hread)
    obtain ⟨rfl, rfl⟩ := describes_jobManifest.mp hdescribes
    rw [Cluster.put_same] at hobject
    obtain rfl := Option.some.inj hobject
    rw [hprinted] at hprinted'
    obtain rfl := Except.ok.inj hprinted'
    rw [huid] at huid'
    obtain rfl := Option.some.inj huid'
    exact hcreated

/-- What is there once the Job's `create` has been read. -/
def JobRead (runner : KubernetesRunner) (spec : LaunchSpec) (deadline : Option ℕ)
    (secrets : JobSecrets) (out : Except String Json) (s : Cluster) : Prop :=
  match out with
  | .ok created => AfterCreate runner spec deadline secrets created s
  | .error _ => Accounted runner spec deadline secrets s

lemma triple_createJob (word : KubectlKeepsItsWord runner json acts)
    (reads : ReadsBackManifests json runner spec deadline secrets) :
    Triple acts (Cluster.DriftsAround spec.name) (Accounted runner spec deadline secrets)
      (fun s => s.Lacks spec.name) (runner.createJob json spec deadline)
      (JobRead runner spec deadline secrets) := by
  have hanswered : ∀ (s : Cluster) (answer : CommandAnswer) (t : Cluster), s.Lacks spec.name →
      acts (.output (runner.kubectl (KubernetesRunner.createArgs ++ ["-o", "json"])))
        (some (json.write (jobManifest spec.name runner.image spec.args deadline))) s answer t →
      JobAnswered json runner spec deadline secrets answer t := fun _ _ _ hs acted =>
    jobAnswered_of_acts word reads hs acted
  have hlacks : ∀ s : Cluster, s.Lacks spec.name → Accounted runner spec deadline secrets s :=
    fun s hs => .of_jobCreated (.of_lacks hs "")
  refine .call (fun _ _ hs drifted => hs.drift drifted) hlacks hanswered fun answer => ?_
  have hfailed : ∀ e, Triple acts (Cluster.DriftsAround spec.name)
      (Accounted runner spec deadline secrets)
        (JobAnswered json runner spec deadline secrets answer)
      (.done (.error e)) (JobRead runner spec deadline secrets) := fun e =>
    .done (fun _ _ hs drifted => hs.drift drifted) fun s hs => ⟨hs.1, hs.1⟩
  cases answer with
  | unspawnable e => exact hfailed _
  | broken e => exact hfailed _
  | ended success stdout stderr =>
      cases success with
      | false => exact hfailed _
      | true =>
          refine .done (fun _ _ hs drifted => hs.drift drifted) fun s hs => ⟨hs.1, ?_⟩
          cases hread : json.read (fromUtf8Lossy stdout) with
          | error e => exact hs.1
          | ok created => exact hs.2 stdout stderr created rfl hread

lemma triple_createSecret (word : KubectlKeepsItsWord runner json acts)
    (reads : ReadsBackManifests json runner spec deadline secrets) (uid : String) :
    Triple acts (Cluster.DriftsAround spec.name) (Accounted runner spec deadline secrets)
      (JobCreated runner spec deadline uid) (runner.createSecret json spec.name uid secrets)
      fun _ => Accounted runner spec deadline secrets := by
  have hanswered : ∀ (s : Cluster) (answer : CommandAnswer) (t : Cluster),
      JobCreated runner spec deadline uid s →
      acts (.output (runner.kubectl (KubernetesRunner.createArgs ++ [])))
        (some (json.write (secretManifest spec.name uid secrets))) s answer t →
      Accounted runner spec deadline secrets t := by
    intro s answer t hs acted
    rcases word.creates _ _ _ _ _ acted with
      rfl | ⟨manifest, kind, name, object, hread, hdescribes, -, hmanifest, rfl⟩
    · exact .of_jobCreated hs
    · obtain rfl := Except.ok.inj ((reads.secret uid).symm.trans hread)
      obtain ⟨rfl, rfl⟩ := describes_secretManifest.mp hdescribes
      refine ⟨fun job hjob => ?_, fun secret hsecret => ⟨uid, ?_, fun job hjob => ?_⟩⟩
      · rw [Cluster.put_other (by decide)] at hjob
        exact (hs.job job hjob).1
      · rw [Cluster.put_same] at hsecret
        obtain rfl := Option.some.inj hsecret
        exact hmanifest
      · rw [Cluster.put_other (by decide)] at hjob
        exact (hs.job job hjob).2
  exact .call (fun _ _ hs drifted => hs.drift drifted) (fun _ hs => .of_jobCreated hs) hanswered
    fun answer => .done (fun _ _ hs drifted => hs.drift drifted) fun s hs => ⟨hs, hs⟩

/-- What is there once the uid was looked for in what was printed. -/
def UidRead (runner : KubernetesRunner) (spec : LaunchSpec) (deadline : Option ℕ)
    (secrets : JobSecrets) (out : Except String String) (s : Cluster) : Prop :=
  match out with
  | .ok uid => JobCreated runner spec deadline uid s
  | .error _ => Accounted runner spec deadline secrets s

lemma AfterCreate.uidRead {created : Json} {s : Cluster}
    (h : AfterCreate runner spec deadline secrets created s) :
    UidRead runner spec deadline secrets (KubernetesRunner.createdUid spec.name created) s := by
  unfold KubernetesRunner.createdUid
  split
  · rename_i uid huid
    exact h.2 uid (Option.filter_eq_some_iff.mp huid).1
  · exact h.1

/-- However far a launch has come, what it created is accounted for. -/
lemma triple_createAndFollow (word : KubectlKeepsItsWord runner json acts)
    (reads : ReadsBackManifests json runner spec deadline secrets) :
    Triple acts (Cluster.DriftsAround spec.name) (Accounted runner spec deadline secrets)
      (fun s => s.Lacks spec.name) (runner.createAndFollow json spec deadline secrets)
      fun _ => Accounted runner spec deadline secrets := by
  refine (triple_createJob word reads).bind ?_
  rintro (e | created)
  · exact .done (fun _ _ hs drifted => hs.drift drifted) fun s hs => ⟨hs, hs⟩
  · refine Triple.bind (?_ : Triple _ _ _ _ _ (UidRead runner spec deadline secrets)) ?_
    · exact .done (fun _ _ hs drifted => hs.drift drifted) fun s hs => ⟨hs.1, hs.uidRead⟩
    · rintro (e | uid)
      · exact .done (fun _ _ hs drifted => hs.drift drifted) fun s hs => ⟨hs, hs⟩
      · refine (triple_createSecret word reads uid).bind ?_
        rintro (e | printed)
        · exact .done (fun _ _ hs drifted => hs.drift drifted) fun s hs => ⟨hs, hs⟩
        · exact triple_of_createsNowhere word
            (KubernetesRunner.createsNowhere_startAndFollow spec.name)

/-- Once the deletes have gone through, nothing is left. -/
def Settled (runner : KubernetesRunner) (acts : ClusterActs) (name : String) (s : Cluster) : Prop :=
  DeletesSucceed runner acts → s.Lacks name

/-- A round is accounted for, and settled. -/
def AccountedAndSettled (runner : KubernetesRunner) (acts : ClusterActs) (spec : LaunchSpec)
    (deadline : Option ℕ) (secrets : JobSecrets) (s : Cluster) : Prop :=
  Accounted runner spec deadline secrets s ∧ Settled runner acts spec.name s

lemma AccountedAndSettled.drift {s t : Cluster}
    (h : AccountedAndSettled runner acts spec deadline secrets s)
    (hdrift : Cluster.DriftsAround spec.name s t) :
    AccountedAndSettled runner acts spec deadline secrets t :=
  ⟨h.1.drift hdrift, fun through => (h.2 through).drift hdrift⟩

/-- The round's Job is gone, once its delete has gone through. -/
def JobDeleted (runner : KubernetesRunner) (acts : ClusterActs) (spec : LaunchSpec)
    (deadline : Option ℕ) (secrets : JobSecrets) (s : Cluster) : Prop :=
  Accounted runner spec deadline secrets s ∧ (DeletesSucceed runner acts → s .job spec.name = none)

lemma JobDeleted.drift {s t : Cluster} (h : JobDeleted runner acts spec deadline secrets s)
    (hdrift : Cluster.DriftsAround spec.name s t) :
    JobDeleted runner acts spec deadline secrets t := by
  refine ⟨h.1.drift hdrift, fun through => ?_⟩
  rcases hdrift .job with hsame | hnone
  · rw [hsame, h.2 through]
  · exact hnone

/-- An object that was to be deleted is gone, if deletes succeed. -/
lemma gone_of_delete (word : KubectlKeepsItsWord runner json acts) {kind : ObjectKind}
    {name : String}
    {given : Option String} {s t : Cluster} {answer : CommandAnswer}
    (acted : acts (.output (runner.kubectl (KubernetesRunner.deleteArgs kind.arg name))) given s
      answer t) (through : DeletesSucceed runner acts) : t kind name = none := by
  rcases word.deletes kind name given s answer t acted with ⟨-, hfailed⟩ | rfl
  · rw [through kind name given s answer t acted] at hfailed
    cases hfailed
  · exact Cluster.put_same s kind name none

/-- Cleaning up settles a round, whatever there is of it. -/
lemma triple_deleteJobAndSecret (word : KubectlKeepsItsWord runner json acts) :
    Triple acts (Cluster.DriftsAround spec.name) (Accounted runner spec deadline secrets)
      (Accounted runner spec deadline secrets) (runner.deleteJobAndSecret spec.name)
      fun _ => AccountedAndSettled runner acts spec deadline secrets := by
  have hjob : ∀ (s : Cluster) (answer : CommandAnswer) (t : Cluster),
      Accounted runner spec deadline secrets s →
      acts (.output (runner.kubectl (KubernetesRunner.deleteArgs ObjectKind.job.arg spec.name)))
        none s answer t → JobDeleted runner acts spec deadline secrets t := fun _ _ _ hs acted =>
    ⟨hs.drift (driftsAround_of_createsNothing word ⟨rfl, .inl ⟨.job, rfl⟩⟩ acted),
      gone_of_delete word acted⟩
  have hsecret : ∀ (s : Cluster) (answer : CommandAnswer) (t : Cluster),
      JobDeleted runner acts spec deadline secrets s →
      acts (.output (runner.kubectl (KubernetesRunner.deleteArgs ObjectKind.secret.arg spec.name)))
        none s answer t → AccountedAndSettled runner acts spec deadline secrets t := by
    intro s answer t hs acted
    have hleft := hs.drift (driftsAround_of_createsNothing word ⟨rfl, .inl ⟨.secret, rfl⟩⟩ acted)
    exact ⟨hleft.1, fun through => ⟨hleft.2 through, gone_of_delete word acted through⟩⟩
  exact .call (fun _ _ hs drifted => hs.drift drifted) (fun _ hs => hs) hjob fun _ =>
    .call (fun _ _ hs drifted => hs.drift drifted) (fun _ hs => hs.1) hsecret fun _ =>
      .done (fun _ _ hs drifted => hs.drift drifted) fun s hs => ⟨hs.1, hs⟩

/-- What there is of a round when its launch returns. -/
def Launched (runner : KubernetesRunner) (acts : ClusterActs) (spec : LaunchSpec)
    (deadline : Option ℕ) (secrets : JobSecrets) (out : Except String α) (s : Cluster) : Prop :=
  match out with
  | .ok _ => Accounted runner spec deadline secrets s
  | .error _ => AccountedAndSettled runner acts spec deadline secrets s

/-- A launch that fails is cleaned up. -/
lemma triple_launch (word : KubectlKeepsItsWord runner json acts)
    (reads : ReadsBackManifests json runner spec deadline secrets) :
    Triple acts (Cluster.DriftsAround spec.name) (Accounted runner spec deadline secrets)
      (fun s => s.Lacks spec.name) (runner.launch json spec deadline secrets)
      (Launched runner acts spec deadline secrets) := by
  refine (triple_createAndFollow word reads).bind ?_
  rintro (e | launched)
  · exact (triple_deleteJobAndSecret word).bind fun _ =>
      .done (fun _ _ hs drifted => hs.drift drifted) fun s hs => ⟨hs.1, hs⟩
  · exact .done (fun _ _ hs drifted => hs.drift drifted) fun s hs => ⟨hs, hs⟩

/-- A round that is collected is cleaned up, whatever is done with it before. -/
lemma triple_collected (word : KubectlKeepsItsWord runner json acts)
    (abandonedBecause : Option String)
    (turns : List RoundTurn) :
    Triple acts (Cluster.DriftsAround spec.name) (Accounted runner spec deadline secrets)
      (Accounted runner spec deadline secrets)
      (runner.collected json spec.name abandonedBecause turns)
      fun _ => AccountedAndSettled runner acts spec deadline secrets := by
  have hstable : Stable (Cluster.DriftsAround spec.name)
      (AccountedAndSettled runner acts spec deadline secrets) :=
    fun _ _ hs drifted => hs.drift drifted
  induction turns with
  | nil =>
      refine Triple.bind ?_ fun _ => .done hstable fun s hs => ⟨hs.1, hs⟩
      refine (triple_of_createsNowhere word
        (KubernetesRunner.createsNowhere_lastProgress spec.name abandonedBecause)).bind fun _ => ?_
      exact (triple_deleteJobAndSecret word).bind fun _ => .done hstable fun s hs => ⟨hs.1, hs⟩
  | cons turn turns ih =>
      exact (triple_of_createsNowhere word (KubernetesRunner.createsNowhere_turn turn)).bind
        fun _ => ih

lemma triple_launchedLife (word : KubectlKeepsItsWord runner json acts)
    (reads : ReadsBackManifests json runner spec deadline secrets) (turns : List RoundTurn)
    (abandonedBecause : Option String) :
    Triple acts (Cluster.DriftsAround spec.name) (Accounted runner spec deadline secrets)
      (fun s => s.Lacks spec.name)
      (runner.launchedLife json spec deadline secrets turns abandonedBecause)
      fun _ => AccountedAndSettled runner acts spec deadline secrets := by
  refine (triple_launch word reads).bind ?_
  rintro (e | launched)
  · exact .done (fun _ _ hs drifted => hs.drift drifted) fun s hs => ⟨hs.1, hs⟩
  · exact triple_collected word abandonedBecause turns

/-- What there is of a round when a later daemon is done with it. -/
def Resumed (runner : KubernetesRunner) (acts : ClusterActs) (spec : LaunchSpec)
    (deadline : Option ℕ) (secrets : JobSecrets) (out : Except String α) (s : Cluster) : Prop :=
  match out with
  | .ok _ => AccountedAndSettled runner acts spec deadline secrets s
  | .error _ => Accounted runner spec deadline secrets s

lemma triple_resumedLife (word : KubectlKeepsItsWord runner json acts) (turns : List RoundTurn)
    (abandonedBecause : Option String) :
    Triple acts (Cluster.DriftsAround spec.name) (Accounted runner spec deadline secrets)
      (Accounted runner spec deadline secrets)
      (runner.resumedLife json spec.name turns abandonedBecause)
      (Resumed runner acts spec deadline secrets) := by
  refine (triple_of_createsNowhere word
    (KubernetesRunner.createsNowhere_reattach (.kubernetes spec.name))).bind ?_
  rintro (e | launched)
  · exact .done (fun _ _ hs drifted => hs.drift drifted) fun s hs => ⟨hs, hs⟩
  · refine (triple_collected word abandonedBecause turns).weaken (fun _ hs => hs) ?_
    rintro (e | ended) s hs
    · exact hs.1
    · exact hs

end Programs

/-! ## Whatever becomes of its daemons -/

section Lives

open Calls

/-- A round that one daemon launches, and that another looks for whenever the one before was cut
off: what its last daemon returned, if it did. -/
inductive Lived (runner : KubernetesRunner) (json : JsonText) (acts : ClusterActs)
    (spec : LaunchSpec) (deadline : Option ℕ) (secrets : JobSecrets) (s : Cluster) :
    Option (Except String Termination) → Cluster → Prop
  | launched {out : Option (Except String Termination)} {t : Cluster} (turns : List RoundTurn)
      (abandonedBecause : Option String)
      (leads : Leads acts (Cluster.DriftsAround spec.name)
        (runner.launchedLife json spec deadline secrets turns abandonedBecause) s out t) :
      Lived runner json acts spec deadline secrets s out t
  | resumed {out : Option (Except String Termination)} {m t : Cluster} (turns : List RoundTurn)
      (abandonedBecause : Option String)
      (before : Lived runner json acts spec deadline secrets s none m)
      (leads : Leads acts (Cluster.DriftsAround spec.name)
        (runner.resumedLife json spec.name turns abandonedBecause) m out t) :
      Lived runner json acts spec deadline secrets s out t

variable {runner : KubernetesRunner} {json : JsonText} {acts : ClusterActs}
  {spec : LaunchSpec} {deadline : Option ℕ} {secrets : JobSecrets} {s t : Cluster}
  {out : Option (Except String Termination)}

/-- A round is accounted for wherever its daemons were cut off, and settled once one has ended
it. -/
lemma Lived.resumes (word : KubectlKeepsItsWord runner json acts)
    (reads : ReadsBackManifests json runner spec deadline secrets) (hs : s.Lacks spec.name)
    (lived : Lived runner json acts spec deadline secrets s out t) :
    Accounted runner spec deadline secrets t ∧
      ∀ ended, out = some (.ok ended) → Settled runner acts spec.name t := by
  induction lived with
  | launched turns abandonedBecause leads =>
      obtain ⟨hleft, hreturned⟩ :=
        triple_launchedLife word reads turns abandonedBecause _ _ _ hs leads
      exact ⟨hleft, fun ended hout => (hreturned _ hout).2⟩
  | resumed turns abandonedBecause before leads ih =>
      obtain ⟨hleft, hreturned⟩ :=
        triple_resumedLife word turns abandonedBecause _ _ _ ih.1 leads
      exact ⟨hleft, fun ended hout => (hreturned _ hout).2⟩

/-- What is printed of an object with this uid. -/
def printedUid (uid : String) : Json := .object [("metadata", .object [("uid", .string uid)])]

/-- A cluster that creates or refuses what it is told to, under a uid for each kind, and deletes
what it is told to. -/
def obedient (runner : KubernetesRunner) (json : JsonText) : ClusterActs
  | .output args, given, s, answer, t =>
    (∃ rest text manifest kind name, args = runner.kubectl (KubernetesRunner.createArgs ++ rest) ∧
      given = some text ∧ json.read text = .ok manifest ∧
      Cluster.Describes manifest kind name ∧ s kind name = none ∧
      answer = .ended true (utf8 (json.write (printedUid kind.arg))) [] ∧
      t = s.put kind name (some ⟨kind.arg, manifest⟩)) ∨
    (∃ (kind : ObjectKind) (name : String),
      args = runner.kubectl (KubernetesRunner.deleteArgs kind.arg name) ∧
      answer = .ended true [] [] ∧ t = s.put kind name none) ∨
    ((∀ rest, args ≠ runner.kubectl ("delete" :: rest)) ∧ answer = .ended false [] [] ∧ t = s)
  | _, _, s, _, t => t = s

lemma kubectl_create_ne_delete {rest : List String} {kind name : String} :
    runner.kubectl (KubernetesRunner.createArgs ++ rest) ≠
      runner.kubectl (KubernetesRunner.deleteArgs kind name) := by
  intro h
  exact absurd (List.cons.inj (KubernetesRunner.kubectl_inj.mp h)).1 (by decide)

lemma kubectl_delete_inj {kind kind' : ObjectKind} {name name' : String}
    (h : runner.kubectl (KubernetesRunner.deleteArgs kind.arg name) =
      runner.kubectl (KubernetesRunner.deleteArgs kind'.arg name')) :
    kind = kind' ∧ name = name' := by
  have hargs := KubernetesRunner.kubectl_inj.mp h
  cases kind <;> cases kind' <;>
    simp_all [KubernetesRunner.deleteArgs, ObjectKind.arg]

lemma obedient_keepsItsWord (runner : KubernetesRunner)
    (prints : ∀ kind : ObjectKind, json.ReadsBack (printedUid kind.arg)) :
    KubectlKeepsItsWord runner json (obedient runner json) where
  creates := by
    intro args text s answer t acted
    rcases acted with
      ⟨rest, text', manifest, kind, name, -, hgiven, hread, hdescribes, hfree, -, rfl⟩ |
      ⟨kind, name, hargs, -⟩ | ⟨-, -, rfl⟩
    · obtain rfl := Option.some.inj hgiven
      exact .inr ⟨manifest, kind, name, _, hread, hdescribes, hfree, rfl, rfl⟩
    · exact absurd hargs kubectl_create_ne_delete
    · exact .inl rfl
  tells := by
    intro text s stdout stderr t acted
    rcases acted with
      ⟨rest, text', manifest, kind, name, -, hgiven, hread, hdescribes, -, hended, rfl⟩ |
      ⟨kind, name, hargs, -⟩ | ⟨-, hended, -⟩
    · obtain rfl := Option.some.inj hgiven
      cases hended
      refine ⟨manifest, kind, name, _, printedUid kind.arg, hread, hdescribes,
        Cluster.put_same s kind name _, ?_, rfl⟩
      rw [fromUtf8Lossy_utf8]
      exact prints kind
    · exact absurd hargs kubectl_create_ne_delete
    · cases hended
  deletes := by
    intro kind name given s answer t acted
    rcases acted with ⟨rest, text, manifest, kind, name, hargs, -⟩ |
      ⟨kind', name', hargs, -, rfl⟩ | ⟨hother, -⟩
    · exact absurd hargs.symm kubectl_create_ne_delete
    · obtain ⟨rfl, rfl⟩ := kubectl_delete_inj hargs
      exact .inr rfl
    · exact absurd rfl (hother _)
  reads := by
    intro c given s answer t acted hcreate hdelete
    cases c with
    | output args =>
        rcases acted with ⟨rest, text, manifest, kind, name, rfl, -⟩ | ⟨kind, name, rfl, -⟩ |
          ⟨-, -, rfl⟩
        · exact absurd rfl (hcreate _)
        · exact absurd rfl (hdelete _)
        · rfl
    | spawn args => exact acted
    | now => exact acted
    | later => exact acted
    | sleep => exact acted
    | isCancelled => exact acted

lemma obedient_deletes (runner : KubernetesRunner) :
    DeletesSucceed runner (obedient runner json) := by
  intro kind name given s answer t acted
  rcases acted with ⟨rest, text, manifest, kind', name', hargs, -⟩ | ⟨kind', name', -, rfl, -⟩ |
    ⟨hother, -⟩
  · exact absurd hargs.symm kubectl_create_ne_delete
  · rfl
  · exact absurd rfl (hother _)

/-- The Job's `create` goes through. -/
lemma leads_createJob (reads : ReadsBackManifests json runner spec deadline secrets)
    (prints : json.ReadsBack (printedUid "job")) (hs : s .job spec.name = none) :
    Leads (obedient runner json) (Cluster.DriftsAround spec.name)
      (runner.createJob json spec deadline) s (some (.ok (printedUid "job")))
      (s.put .job spec.name
        (some ⟨"job", jobManifest spec.name runner.image spec.args deadline⟩)) := by
  have acted : obedient runner json
      (.output (runner.kubectl (KubernetesRunner.createArgs ++ ["-o", "json"])))
      (some (json.write (jobManifest spec.name runner.image spec.args deadline))) s
      (.ended true (utf8 (json.write (printedUid "job"))) [])
      (s.put .job spec.name
        (some ⟨"job", jobManifest spec.name runner.image spec.args deadline⟩)) :=
    .inl ⟨_, _, _, .job, spec.name, rfl, rfl, reads.job, describes_jobManifest.mpr ⟨rfl, rfl⟩, hs,
      rfl, rfl⟩
  have hread : json.read (fromUtf8Lossy (utf8 (json.write (printedUid "job")))) =
      .ok (printedUid "job") := by
    rw [fromUtf8Lossy_utf8]
    exact prints
  refine .call acted ?_
  simp only [Calls.bind, KubernetesRunner.printed, hread]
  exact .done _ _

/-- A `kubectl` of a cluster. -/
def oneRunner : KubernetesRunner := ⟨"kubectl", "img:1", "rounds", none, 600, 2, by decide⟩

def oneSpec : LaunchSpec := ⟨"al-1-1-0", ["run", "--job=1"], none, ["srv", "1", "frames"]⟩

def oneToken : JobSecrets := ⟨[("GH_TOKEN", "t0ken")], by decide⟩

/-- The documents of one round, and what is printed of its objects. -/
def oneRoundsDocuments : Set Json :=
  {v | v = jobManifest "al-1-1-0" "img:1" oneSpec.args none ∨
    (∃ kind : ObjectKind, v = printedUid kind.arg) ∨
    ∃ uid, v = secretManifest "al-1-1-0" uid oneToken}

/-- A way of writing them compactly, and of reading them. -/
noncomputable def oneJson : JsonText :=
  .ofWriter (fun v => String.ofList v.compact) oneRoundsDocuments

lemma begins_jobManifest :
    (jobManifest "al-1-1-0" "img:1" oneSpec.args none).compact.take 16 =
      "\x7b\"apiVersion\":\"b".toList := rfl

lemma begins_secretManifest (uid : String) :
    (secretManifest "al-1-1-0" uid oneToken).compact.take 16 =
      "\x7b\"apiVersion\":\"v".toList := rfl

lemma begins_printedUid (uid : String) :
    (printedUid uid).compact.take 16 = "\x7b\"metadata\":\x7b\"ui".toList := rfl

/-- What stands before a Secret's uid and after it is the same in every one. -/
lemma compact_secretManifest : ∃ before after : List Char, ∀ uid : String,
    (secretManifest "al-1-1-0" uid oneToken).compact = before ++ (uid.toList ++ after) := by
  refine ⟨("\x7b\"apiVersion\":\"v1\",\"kind\":\"Secret\",\"metadata\":\x7b\"name\":\"al-1-1-0\"," ++
      "\"ownerReferences\":[\x7b\"apiVersion\":\"batch/v1\",\"kind\":\"Job\"," ++
      "\"name\":\"al-1-1-0\",\"uid\":\"").toList,
    ("\"\x7d]\x7d,\"stringData\":\x7b\"GH_TOKEN\":\"t0ken\"\x7d,\"type\":\"Opaque\"\x7d").toList, ?_⟩
  intro uid
  have hsorted : oneToken.sorted = [("GH_TOKEN", "t0ken")] := rfl
  simp [secretManifest, hsorted, Json.compact, Json.moreEntries, Json.moreItems, Json.quoted]

lemma secretManifest_inj {uid uid' : String}
    (h : (secretManifest "al-1-1-0" uid oneToken).compact =
      (secretManifest "al-1-1-0" uid' oneToken).compact) : uid = uid' := by
  obtain ⟨before, after, hcompact⟩ := compact_secretManifest
  rw [hcompact, hcompact] at h
  exact String.toList_injective (List.append_cancel_right (List.append_cancel_left h))

/-- The round's documents are written differently: they begin so, but for the two an object may be
printed by, and for Secrets, which differ in a uid. -/
lemma oneRoundsDocuments_differ :
    Set.InjOn (fun v => String.ofList v.compact) oneRoundsDocuments := by
  intro v hv u hu hsame
  have hsame : v.compact = u.compact := String.ofList_injective hsame
  have hbegins : v.compact.take 16 = u.compact.take 16 := congrArg (List.take 16) hsame
  rcases hv with rfl | ⟨kind, rfl⟩ | ⟨uid, rfl⟩ <;> rcases hu with rfl | ⟨kind', rfl⟩ | ⟨uid', rfl⟩
  all_goals simp only [begins_jobManifest, begins_secretManifest, begins_printedUid] at hbegins
  case inr.inl.inr.inl =>
    cases kind <;> cases kind' <;> first | rfl | exact absurd hsame (by decide)
  case inr.inr.inr.inr => rw [secretManifest_inj hsame]
  all_goals first | rfl | exact absurd hbegins (by decide)

lemma oneJson_readsBack {v : Json} (hv : v ∈ oneRoundsDocuments) : oneJson.ReadsBack v :=
  JsonText.readsBack_ofWriter oneRoundsDocuments_differ hv

lemma oneJson_manifests : ReadsBackManifests oneJson oneRunner oneSpec none oneToken :=
  ⟨oneJson_readsBack (.inl rfl), fun uid => oneJson_readsBack (.inr (.inr ⟨uid, rfl⟩))⟩

lemma oneJson_prints (kind : ObjectKind) : oneJson.ReadsBack (printedUid kind.arg) :=
  oneJson_readsBack (.inr (.inl ⟨kind, rfl⟩))

/-- A cluster with nothing in it. -/
def emptyCluster : Cluster := fun _ _ => none

/-- **A Secret goes with its Job.**  Wherever a round's launch, its collection or any later daemon's
is cut off, or returns, and whatever `kubectl` answered and others deleted by then: a Job of the
round's name is the one that was asked for; a Secret of that name holds what the round is sent, and
is owned by the uid that a Job of that name has; so once the Job is gone, the garbage collector does
not stop before the Secret is. -/
theorem secret_goes_with_its_job (word : KubectlKeepsItsWord runner json acts)
    (reads : ReadsBackManifests json runner spec deadline secrets) (hs : s.Lacks spec.name)
    (lived : Lived runner json acts spec deadline secrets s out t) :
    (∀ job, t .job spec.name = some job →
      job.manifest = jobManifest spec.name runner.image spec.args deadline) ∧
    (∀ secret, t .secret spec.name = some secret →
      ∃ uid, secret.manifest = secretManifest spec.name uid secrets ∧
        ∀ job, t .job spec.name = some job → job.uid = uid) ∧
    (t.Collected → t .job spec.name = none → t .secret spec.name = none) := by
  obtain ⟨hjob, hsecret⟩ := (lived.resumes word reads hs).1
  refine ⟨hjob, hsecret, fun collected hgone => ?_⟩
  by_contra hleft
  obtain ⟨secret, hsome⟩ := Option.ne_none_iff_exists'.mp hleft
  obtain ⟨uid, hmanifest, -⟩ := hsecret secret hsome
  have howner : Cluster.ownerOf secret.manifest = some (spec.name, uid) := by
    rw [hmanifest, ownerOf_secretManifest]
  obtain ⟨job, hthere, -⟩ := collected .secret spec.name secret spec.name uid hsome howner
  rw [hgone] at hthere
  cases hthere

/-- The cluster once the Job is created. -/
def withJob : Cluster :=
  emptyCluster.put .job "al-1-1-0" (some ⟨"job", jobManifest "al-1-1-0" "img:1" oneSpec.args none⟩)

/-- The cluster once its Secret is created too. -/
def withSecret : Cluster :=
  withJob.put .secret "al-1-1-0" (some ⟨"secret", secretManifest "al-1-1-0" "job" oneToken⟩)

/-- A launch that is cut off as it waits for its pod. -/
theorem secret_goes_with_its_job_cut_off :
    Lived oneRunner oneJson (obedient oneRunner oneJson) oneSpec none oneToken emptyCluster none
        withSecret ∧
      ∃ secret uid, withSecret .secret "al-1-1-0" = some secret ∧
        secret.manifest = secretManifest "al-1-1-0" uid oneToken ∧
        ∀ job, withSecret .job "al-1-1-0" = some job → job.uid = uid := by
  have hsecret : Leads (obedient oneRunner oneJson) (Cluster.DriftsAround oneSpec.name)
      (oneRunner.createSecret oneJson oneSpec.name "job" oneToken) withJob (some (.ok _))
      withSecret :=
    .call (.inl ⟨[], _, _, .secret, oneSpec.name, rfl, rfl, oneJson_manifests.secret "job",
      describes_secretManifest.mpr ⟨rfl, rfl⟩, rfl, rfl, rfl⟩) (.done _ _)
  have hlived : Lived oneRunner oneJson (obedient oneRunner oneJson) oneSpec none oneToken
      emptyCluster none withSecret :=
    .launched [] none (.cutOff_bind (.cutOff_bind
      ((leads_createJob oneJson_manifests (oneJson_prints .job) rfl).bind
        (hsecret.bind (.cutOff _ _)))))
  obtain ⟨-, howned, -⟩ :=
    secret_goes_with_its_job (obedient_keepsItsWord oneRunner oneJson_prints) oneJson_manifests
      ⟨rfl, rfl⟩ hlived
  obtain ⟨uid, hmanifest, howner⟩ := howned _ rfl
  exact ⟨hlived, _, uid, rfl, hmanifest, howner⟩

/-- **Nothing is left of a settled round.**  When every delete goes through, a launch that fails at
any point leaves neither Job nor Secret, even where a `create` had failed that made something; and
neither does a round that was collected to its end, by the daemon that launched it or by any that
found it again. -/
theorem settled_round_leaves_nothing (word : KubectlKeepsItsWord runner json acts)
    (reads : ReadsBackManifests json runner spec deadline secrets)
    (through : DeletesSucceed runner acts) (hs : s.Lacks spec.name) :
    (∀ e t, Leads acts (Cluster.DriftsAround spec.name)
      (runner.launch json spec deadline secrets) s (some (.error e)) t → t.Lacks spec.name) ∧
    ∀ ended t, Lived runner json acts spec deadline secrets s (some (.ok ended)) t →
      t.Lacks spec.name := by
  refine ⟨fun e t leads => ?_, fun ended t lived => ?_⟩
  · exact ((triple_launch word reads _ _ _ hs leads).2 _ rfl).2 through
  · exact (lived.resumes word reads hs).2 ended rfl through

/-- A launch whose Secret is refused. -/
theorem settled_round_leaves_nothing_refused :
    ∃ e t, Leads (obedient oneRunner oneJson) (Cluster.DriftsAround oneSpec.name)
      (oneRunner.launch oneJson oneSpec none oneToken) emptyCluster (some (.error e)) t ∧
      t.Lacks "al-1-1-0" := by
  have hrefused : ∀ rest : List String, oneRunner.kubectl KubernetesRunner.createArgs ≠
      oneRunner.kubectl ("delete" :: rest) := fun rest h =>
    absurd (List.cons.inj (KubernetesRunner.kubectl_inj.mp h)).1 (by decide)
  obtain ⟨e, hsecret⟩ : ∃ e, Leads (obedient oneRunner oneJson) (Cluster.DriftsAround oneSpec.name)
      (oneRunner.createSecret oneJson oneSpec.name "job" oneToken) withJob (some (.error e))
      withJob :=
    ⟨_, .call (.inr (.inr ⟨hrefused, rfl, rfl⟩)) (.done _ _)⟩
  have hcreates : Leads (obedient oneRunner oneJson) (Cluster.DriftsAround oneSpec.name)
      (oneRunner.createAndFollow oneJson oneSpec none oneToken) emptyCluster (some (.error e))
      withJob := by
    refine (leads_createJob oneJson_manifests (oneJson_prints .job) rfl).bind ?_
    exact hsecret.bind (.done _ _)
  have hdeletes : Leads (obedient oneRunner oneJson) (Cluster.DriftsAround oneSpec.name)
      (oneRunner.deleteJobAndSecret oneSpec.name) withJob (some ())
      ((withJob.put .job oneSpec.name none).put .secret oneSpec.name none) :=
    .call (.inr (.inl ⟨.job, oneSpec.name, rfl, rfl, rfl⟩))
      (.call (.inr (.inl ⟨.secret, oneSpec.name, rfl, rfl, rfl⟩)) (.done _ _))
  have hleads : Leads (obedient oneRunner oneJson) (Cluster.DriftsAround oneSpec.name)
      (oneRunner.launch oneJson oneSpec none oneToken) emptyCluster (some (.error e))
      ((withJob.put .job oneSpec.name none).put .secret oneSpec.name none) := by
    refine hcreates.bind ?_
    exact hdeletes.bind (.done _ _)
  exact ⟨_, _, hleads, (settled_round_leaves_nothing
    (obedient_keepsItsWord oneRunner oneJson_prints) oneJson_manifests (obedient_deletes oneRunner)
      ⟨rfl, rfl⟩).1 _ _ hleads⟩

end Lives

/-! ## What is secret -/

/-- What a call of a round is given: nothing, the Job's manifest, or the Secret's. -/
def GivesOnly (runner : KubernetesRunner) (json : JsonText) (spec : LaunchSpec)
    (deadline : Option ℕ) (secrets : JobSecrets) (c : KubectlCall) (given : Option String) : Prop :=
  given = none ∨
    (c = .output (runner.kubectl (KubernetesRunner.createArgs ++ ["-o", "json"])) ∧
      given = some (json.write (jobManifest spec.name runner.image spec.args deadline))) ∨
    ∃ uid, c = .output (runner.kubectl KubernetesRunner.createArgs) ∧
      given = some (json.write (secretManifest spec.name uid secrets))

section Secrets

open Calls

variable {runner : KubernetesRunner} {json : JsonText} {spec : LaunchSpec}
  {deadline : Option ℕ} {secrets secrets' : JobSecrets} {α : Type} {p : Kubectl α}

lemma givesOnly_of_createsNowhere (h : runner.CreatesNowhere spec.name p) :
    p.All (GivesOnly runner json spec deadline secrets) :=
  h.mono fun _ _ hc => .inl hc.1

lemma givesOnly_launch :
    (runner.launch json spec deadline secrets).All
      (GivesOnly runner json spec deadline secrets) := by
  refine .bind (.tryBind ?_ fun created => .tryBind (p := .done _) trivial fun uid => ?_) ?_
  · exact .tryBind ⟨.inr (.inl ⟨rfl, rfl⟩), fun _ => trivial⟩ fun _ => trivial
  · refine .tryBind ⟨.inr (.inr ⟨uid, rfl, rfl⟩), fun _ => trivial⟩ fun _ => ?_
    exact givesOnly_of_createsNowhere (KubernetesRunner.createsNowhere_startAndFollow spec.name)
  · rintro (e | launched)
    · exact (givesOnly_of_createsNowhere KubernetesRunner.createsNowhere_deleteJobAndSecret).bind
        fun _ => trivial
    · trivial

lemma givesOnly_collected (abandonedBecause : Option String) (turns : List RoundTurn) :
    (runner.collected json spec.name abandonedBecause turns).All
      (GivesOnly runner json spec deadline secrets) := by
  induction turns with
  | nil =>
      refine .bind (.bind ?_ fun _ => .bind ?_ fun _ => trivial) fun _ => trivial
      · exact givesOnly_of_createsNowhere (KubernetesRunner.createsNowhere_lastProgress _ _)
      · exact givesOnly_of_createsNowhere KubernetesRunner.createsNowhere_deleteJobAndSecret
  | cons turn turns ih =>
      exact (givesOnly_of_createsNowhere (KubernetesRunner.createsNowhere_turn turn)).bind
        fun _ => ih

/-- **What is secret stays out of sight.**  Whatever is answered to a round's calls, from its launch
to its end, what can be seen of them (every command line, in its order, and what the round returns)
is the same whatever the secrets are; and what no one sees is given to one kind of call alone, the
`create` of the round's Secret: no other call is given anything but the Job's manifest, which has
nothing of them. -/
theorem secrets_stay_out_of_sight (runner : KubernetesRunner) (json : JsonText)
    (spec : LaunchSpec) (deadline : Option ℕ) (secrets secrets' : JobSecrets)
    (turns : List RoundTurn) (abandonedBecause : Option String) :
    SeenAlike (runner.launchedLife json spec deadline secrets turns abandonedBecause)
      (runner.launchedLife json spec deadline secrets' turns abandonedBecause) ∧
    (runner.launchedLife json spec deadline secrets turns abandonedBecause).All
      (GivesOnly runner json spec deadline secrets) := by
  refine ⟨?_, givesOnly_launch.tryBind fun _ => givesOnly_collected abandonedBecause turns⟩
  refine SeenAlike.tryBind (SeenAlike.bind ?_ fun _ => .refl _) fun _ => .refl _
  refine SeenAlike.tryBind (.refl _) fun created => SeenAlike.tryBind (.refl _) fun uid => ?_
  exact SeenAlike.tryBind (.call _ _ _ fun _ => .refl _) fun _ => .refl _

end Secrets

end AssemblyLine
