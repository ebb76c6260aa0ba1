import AssemblyLine.Runner.Kubectl

/-!
# A round in a container

What `DockerRunner` asks of `docker`, call by call: `launch` creates a container, starts it and
follows its log; `termination` waits for it, asks why it stopped, and removes it.  A command is
given an environment besides its arguments, and it is there alone that a secret goes.

The container of a round runs only once the round has started it.  A `create` that was abandoned may
still come through later, and what it leaves is a container that does not run: a launch that is cut
off before its `start`, or cancelled there, leaves nothing that runs, then or ever
(`nothing_runs_before_its_start`), and neither does a round that is settled
(`settled_container_stopped`).
-/

namespace AssemblyLine

/-! ## Calls -/

/-- What a round in a container calls on. -/
inductive DockerCall
  /-- Run `docker` to its end. -/
  | output (args : List String)
  /-- Start `docker`, to read its lines. -/
  | follow (args : List String)
  /-- Start `docker`, to be waited for later. -/
  | start (args : List String)
  /-- Wait until the log has ended. -/
  | logEnds
  /-- Wait for what was started. -/
  | reap
  /-- Ask whether a cancel is asked for. -/
  | isCancelled
deriving DecidableEq, Repr

/-- What a call is answered with. -/
@[reducible] def DockerCall.Answer : DockerCall → Type
  | .output _ => CommandAnswer
  | .follow _ => Except String Unit
  | .start _ => Bool
  | .logEnds => Unit
  | .reap => Unit
  | .isCancelled => Bool

/-- A program that calls on `docker`; a command is given variables besides the host's. -/
abbrev Docker (α : Type) : Type := Calls DockerCall DockerCall.Answer (List (String × String)) α

structure DockerRunner where
  /-- `docker`, or a stand-in. -/
  program : String
  image : String
deriving DecidableEq, Repr

/-- How long a cancelled container has to wind its round down before `docker stop` kills it. -/
def stopGraceSecs : ℕ := 30

/-- `docker create`'s arguments.  Only names of variables appear. -/
def dockerCreateArgs (image container : String) (envNames args : List String) : List String :=
  ["create", "--name", container] ++ envNames.flatMap (fun name => ["-e", name]) ++
    [image, "assembly"] ++ args

/-- `str::parse::<i32>`. -/
def parseI32 (text : String) : Option ℤ :=
  match text.toList with
  | '-' :: digits =>
    if digits ≠ [] ∧ digits.all Char.isDigit ∧ Nat.ofDigitChars 10 digits 0 ≤ 2147483648 then
      some (-(Nat.ofDigitChars 10 digits 0 : ℤ))
    else none
  | _ => (parseU64 text).bind fun n => if n ≤ 2147483647 then some n else none

namespace DockerRunner

variable (runner : DockerRunner)

/-- Every reason this runner cannot launch a round, by what became of `docker version`. -/
def reasonsItCannotRun : CommandAnswer → List RunnerProblem
  | .unspawnable e => [.unreachable "docker" e]
  | .broken e => [.unreachable "docker" e]
  | .ended true _ _ => []
  | .ended false _ stderr => [.unreachable "docker" (trim (fromUtf8Lossy stderr))]

/-- What a command printed, or an error carrying its stderr when it fails. -/
def succeededIn (args : List String) : CommandAnswer → Except String (List UInt8)
  | .unspawnable e => .error s!"spawning `{runner.program}`: {e}"
  | .broken e => .error s!"spawning `{runner.program}`: {e}"
  | .ended true stdout _ => .ok stdout
  | .ended false _ stderr =>
    let verb := args.headD ""
    .error s!"`docker {verb}` failed: {trim (fromUtf8Lossy stderr)}"

def succeeded (args : List String) (env : List (String × String)) :
    Docker (Except String (List UInt8)) :=
  .call (.output args) env fun answer => .done (runner.succeededIn args answer)

/-- Remove the container, running or not.  Nothing to remove is not a failure worth reporting. -/
def removeContainer (container : String) : Docker Unit :=
  .call (.output ["rm", "-f", container]) [] fun _ => .done ()

/-! ## Launching -/

/-- Create the container, unless a cancel is asked for meanwhile, which abandons the client. -/
def createContainer (spec : LaunchSpec) (secrets : JobSecrets) :
    Docker (Option (Except String (List UInt8))) :=
  ((runner.succeeded
      (dockerCreateArgs runner.image spec.name (secrets.sorted.map Prod.fst) spec.args)
      secrets.sorted).bind fun created => .done (some created)).unlessAsked
    .isCancelled [] (fun (cancelled : Bool) => cancelled) none

/-- Start what was created. -/
def startContainer (container : String) :
    Except String (List UInt8) → Docker (Except String (List UInt8))
  | .ok _ => runner.succeeded ["start", container] []
  | .error e => .done (.error e)

/-- `docker logs -f` on a container, from the start of its log. -/
def following (container : String) : Docker (Except String Unit) :=
  .call (.follow ["logs", "-f", container]) [] fun (spawned : Except String Unit) => .done spawned

/-- Remove whatever was created, once a cancel has abandoned that. -/
def giveUp (container : String) : Docker (Except String Unit) :=
  (removeContainer container).bind fun _ =>
    .done (.error "cancelled before the container started")

/-- Create the container, then start it, then follow its log. -/
def launch (spec : LaunchSpec) (secrets : JobSecrets) : Docker (Except String Unit) :=
  (runner.createContainer spec secrets).bind fun
    | none => giveUp spec.name
    | some created => (runner.startContainer spec.name created).bind fun
      | .error e => (removeContainer spec.name).bind fun _ => .done (.error e)
      | .ok _ => following spec.name

/-- Another `docker logs -f`, which replays the container's log from its start. -/
def reattach : RoundHandle → Docker (Except String Unit)
  | .docker container => following container
  | handle => .done (.error (handle.launchedByAnotherRunner "docker"))

/-! ## A launched round -/

/-- The exit code that `docker wait` printed. -/
def exitCodeIn : Except String (List UInt8) → Except String ℤ
  | .error e => .error e
  | .ok stdout =>
    match parseI32 (trim (fromUtf8Lossy stdout)) with
    | some code => .ok code
    | none => .error s!"`docker wait` printed no exit code: {fromUtf8Lossy stdout}"

/-- The container's exit code, once it has exited. -/
def exitCode (container : String) : Docker (Except String ℤ) :=
  (runner.succeeded ["wait", container] []).bind fun out => .done (exitCodeIn out)

/-- Whether a command printed `true`, whatever its exit status. -/
def printsTrue : CommandAnswer → Bool
  | .ended _ stdout _ => trim (fromUtf8Lossy stdout) = "true"
  | _ => false

/-- Whether the kernel killed the container for exceeding its memory.  The braces are the
template's. -/
def wasOomKilled (container : String) : Docker Bool :=
  .call (.output ["inspect", "--format", "\x7b\x7b.State.OOMKilled\x7d\x7d", container]) []
    fun answer => .done (printsTrue answer)

/-- Why the container stopped, by its exit code. -/
def stoppedBecause (container : String) : Except String ℤ → Docker Termination
  | .error reason => .done (.killed reason)
  | .ok code =>
    if code ≠ 0 then
      (wasOomKilled container).bind fun killed =>
        .done (if killed then .killed "out of memory" else .exited code)
    else .done (.exited code)

/-- `docker stop` is started, not waited on. -/
def cancel (container : String) : Docker Bool :=
  .call (.start ["stop", "-t", toString stopGraceSecs, container]) []
    fun (started : Bool) => .done started

/-- Reap the `docker stop` of a cancel, if it was started. -/
def reapStop (stopping : Bool) : Docker Unit :=
  if stopping then .call .reap [] fun _ => .done () else .done ()

def termination (container : String) (stopping : Bool) : Docker Termination :=
  .call .logEnds [] fun _ =>
    (reapStop stopping).bind fun _ =>
      (runner.exitCode container).bind fun code =>
        (stoppedBecause container code).bind fun ended =>
          (removeContainer container).bind fun _ => .done ended

/-- What is done with a round that is launched or found again: so many cancels, and its
termination. -/
def collected (container : String) (stopping : Bool) : ℕ → Docker (Except String Termination)
  | 0 => (runner.termination container stopping).bind fun ended => .done (.ok ended)
  | cancels + 1 => (cancel container).bind fun started => collected container started cancels

/-- A round, from its launch by one daemon on. -/
def launchedLife (spec : LaunchSpec) (secrets : JobSecrets) (cancels : ℕ) :
    Docker (Except String Termination) :=
  (runner.launch spec secrets).tryBind fun _ => runner.collected spec.name false cancels

/-- A round, from when a later daemon looks for it on. -/
def resumedLife (container : String) (cancels : ℕ) : Docker (Except String Termination) :=
  (reattach (.docker container)).tryBind fun _ => runner.collected container false cancels

end DockerRunner

/-! ## The containers -/

inductive ContainerState
  | created
  | running
  | exited
deriving DecidableEq, Repr

/-- The containers of `docker`, by name. -/
def Containers : Type := String → Option ContainerState

namespace Containers

/-- The containers with another state, or no container, under a name. -/
def put (s : Containers) (name : String) (state : Option ContainerState) : Containers :=
  fun n => if n = name then state else s n

@[simp] lemma put_same (s : Containers) (name : String) (state : Option ContainerState) :
    s.put name state name = state := if_pos rfl

lemma put_other {s : Containers} {name n : String} {state : Option ContainerState}
    (h : n ≠ name) : s.put name state n = s n := if_neg h

/-- What others do, and what is still to come of a `create` that was abandoned: no container begins
to run by itself. -/
def DriftsAround (name : String) (s t : Containers) : Prop :=
  t name = some .running → s name = some .running

/-- Nothing of this name runs. -/
def Idle (name : String) (s : Containers) : Prop := s name ≠ some .running

lemma Idle.drift {name : String} {s t : Containers} (h : s.Idle name)
    (hdrift : DriftsAround name s t) : t.Idle name := fun hruns => h (hdrift hruns)

end Containers

/-- How containers act on calls. -/
abbrev DockerActs : Type :=
  (c : DockerCall) → List (String × String) → Containers → DockerCall.Answer c → Containers → Prop

/-- What is relied on of `docker`. -/
structure DockerKeepsItsWord (acts : DockerActs) : Prop where
  /-- Only `start` makes a container run. -/
  starts : ∀ c given s answer t name, acts c given s answer t → c ≠ .output ["start", name] →
    Containers.DriftsAround name s t
  /-- An `rm -f` that succeeds leaves no container. -/
  removes : ∀ name given s answer t, acts (.output ["rm", "-f", name]) given s answer t →
    answer.succeeded = true → t name = none

/-- Every `rm -f` goes through. -/
def RemovesSucceed (acts : DockerActs) : Prop :=
  ∀ name given s answer t, acts (.output ["rm", "-f", name]) given s answer t →
    answer.succeeded = true

/-- Every `docker logs` is spawned. -/
def LogsSpawn (acts : DockerActs) : Prop :=
  ∀ args given s answer t, acts (.follow args) given s answer t → answer = .ok ()

section Programs

open Calls DockerRunner

variable {runner : DockerRunner} {acts : DockerActs} {spec : LaunchSpec} {secrets : JobSecrets}
  {name : String} {α : Type} {p : Docker α}

/-- A call that is not the `start` of the round's container. -/
def StartsNothing (name : String) (c : DockerCall) (_ : List (String × String)) : Prop :=
  c ≠ .output ["start", name]

lemma triple_of_startsNothing (word : DockerKeepsItsWord acts) (h : p.All (StartsNothing name)) :
    Triple acts (Containers.DriftsAround name) (Containers.Idle name) (Containers.Idle name) p
      fun _ => Containers.Idle name :=
  .all h (fun c given s answer t hc hs acted =>
      hs.drift (word.starts c given s answer t name acted hc))
    fun _ _ hs drifted => hs.drift drifted

lemma startsNothing_output {verb : String} {args : List String} (h : verb ≠ "start")
    (given : List (String × String)) : StartsNothing name (.output (verb :: args)) given := by
  intro hstart
  exact h (List.cons.inj (DockerCall.output.inj hstart)).1

lemma startsNothing_createContainer :
    (runner.createContainer spec secrets).All (StartsNothing name) := by
  refine Calls.All.unlessAsked (.bind ⟨?_, fun _ => trivial⟩ fun _ => trivial) nofun
  exact startsNothing_output (by decide) _

lemma startsNothing_removeContainer (container : String) :
    (removeContainer container).All (StartsNothing name) :=
  ⟨startsNothing_output (by decide) _, fun _ => trivial⟩

/-- Whatever was there, nothing runs once it is removed. -/
lemma triple_removeContainer (word : DockerKeepsItsWord acts) (through : RemovesSucceed acts) :
    Triple acts (Containers.DriftsAround name) (fun _ => True) (fun _ => True)
      (removeContainer name) fun _ => Containers.Idle name := by
  have hgone : ∀ (s : Containers) (answer : CommandAnswer) (t : Containers), True →
      acts (.output ["rm", "-f", name]) [] s answer t → Containers.Idle name t := by
    intro s answer t _ acted hruns
    rw [word.removes name [] s answer t acted (through name [] s answer t acted)] at hruns
    cases hruns
  exact .call (fun _ _ _ _ => trivial) (fun _ _ => trivial) hgone fun _ =>
    .done (fun _ _ hs drifted => hs.drift drifted) fun s hs => ⟨trivial, hs⟩

/-- A program of which nothing is asked. -/
lemma triple_trivial (p : Docker α) :
    Triple acts (Containers.DriftsAround name) (fun _ => True) (fun _ => True) p fun _ _ => True :=
  fun _ _ _ _ _ => ⟨trivial, fun _ _ => trivial⟩

/-- What there is of a round's container when its launch returns. -/
def LaunchedIdle (name : String) (out : Except String Unit) (s : Containers) : Prop :=
  match out with
  | .ok _ => True
  | .error _ => s.Idle name

/-- A launch that fails leaves nothing that runs. -/
lemma triple_launch_docker (word : DockerKeepsItsWord acts) (through : RemovesSucceed acts)
    (spawn : LogsSpawn acts) :
    Triple acts (Containers.DriftsAround spec.name) (fun _ => True) (fun _ => True)
      (runner.launch spec secrets) (LaunchedIdle spec.name) := by
  have hremoved : ∀ e, Triple acts (Containers.DriftsAround spec.name) (fun _ => True)
      (fun _ => True) ((removeContainer spec.name).bind fun _ => .done (.error e))
      (LaunchedIdle spec.name) := fun e =>
    (triple_removeContainer word through).bind fun _ =>
      .done (fun _ _ hs drifted => hs.drift drifted) fun s hs => ⟨trivial, hs⟩
  refine (triple_trivial _).bind ?_
  rintro (_ | created)
  · exact hremoved _
  · refine (triple_trivial _).bind ?_
    rintro (e | started)
    · exact hremoved e
    · have hspawned : ∀ (s : Containers) (answer : Except String Unit) (t : Containers), True →
          acts (.follow ["logs", "-f", spec.name]) [] s answer t → answer = .ok () :=
        fun s answer t _ acted => spawn _ _ s answer t acted
      refine .call (fun _ _ _ _ => trivial) (fun _ _ => trivial) hspawned fun answer => ?_
      refine .done (fun _ _ hs _ => hs) ?_
      rintro s rfl
      exact ⟨trivial, trivial⟩

lemma triple_collected_docker (word : DockerKeepsItsWord acts) (through : RemovesSucceed acts)
    (stopping : Bool) (cancels : ℕ) :
    Triple acts (Containers.DriftsAround name) (fun _ => True) (fun _ => True)
      (runner.collected name stopping cancels) fun _ => Containers.Idle name := by
  induction cancels generalizing stopping with
  | zero =>
      refine Triple.bind (?_ : Triple _ _ _ _ _ fun _ => Containers.Idle name) fun _ =>
        .done (fun _ _ hs drifted => hs.drift drifted) fun s hs => ⟨trivial, hs⟩
      have htrivial : ∀ (s : Containers) (answer : Unit) (t : Containers), True →
          acts .logEnds [] s answer t → True := fun _ _ _ _ _ => trivial
      refine .call (fun _ _ _ _ => trivial) (fun _ _ => trivial) htrivial fun _ => ?_
      refine (triple_trivial _).bind fun _ => (triple_trivial _).bind fun code => ?_
      refine (triple_trivial _).bind fun ended =>
        (triple_removeContainer word through).bind fun _ => ?_
      exact .done (fun _ _ hs drifted => hs.drift drifted) fun s hs => ⟨trivial, hs⟩
  | succ cancels ih => exact (triple_trivial _).bind fun started => ih started

/-- **A container runs only once it is started, and no longer than its round.**  Wherever a launch
is cut off before it has created its container, or gives up on a cancel then, nothing runs, though
the `create` that was abandoned comes through later and though the `rm -f` fails.  Where removing
goes through, nothing runs once a launch has failed, as long as `docker logs` can be spawned, or
once a round was collected to its end, by the daemon that launched it or by one that found it
again. -/
theorem settled_container_stopped (word : DockerKeepsItsWord acts) (runner : DockerRunner)
    (spec : LaunchSpec) (secrets : JobSecrets) :
    (∀ s : Containers, s.Idle spec.name → ∀ out t,
      Leads acts (Containers.DriftsAround spec.name) (runner.createContainer spec secrets) s out t →
      t.Idle spec.name ∧
        (out = some none → ∀ returned u, Leads acts (Containers.DriftsAround spec.name)
          (giveUp spec.name) t returned u → u.Idle spec.name)) ∧
    (RemovesSucceed acts →
      (LogsSpawn acts → ∀ s e t, Leads acts (Containers.DriftsAround spec.name)
        (runner.launch spec secrets) s (some (.error e)) t → t.Idle spec.name) ∧
      (∀ cancels s ended t, Leads acts (Containers.DriftsAround spec.name)
        (runner.launchedLife spec secrets cancels) s (some (.ok ended)) t → t.Idle spec.name) ∧
      ∀ cancels s ended t, Leads acts (Containers.DriftsAround spec.name)
        (runner.resumedLife spec.name cancels) s (some (.ok ended)) t → t.Idle spec.name) := by
  refine ⟨fun s hs out t leads => ?_, fun through => ⟨fun spawn s e t leads => ?_, ?_, ?_⟩⟩
  · have hidle := (triple_of_startsNothing word startsNothing_createContainer s out t hs leads).1
    refine ⟨hidle, fun _ returned u hgives => ?_⟩
    have hgiveUp : (giveUp spec.name).All (StartsNothing spec.name) :=
      (startsNothing_removeContainer spec.name).bind fun _ => trivial
    exact (triple_of_startsNothing word hgiveUp t returned u hidle hgives).1
  · exact (triple_launch_docker word through spawn s _ t trivial leads).2 _ rfl
  · intro cancels s ended t leads
    rcases leads_bind leads with ⟨hout, -⟩ | ⟨launched, m, -, hrest⟩
    · cases hout
    · rcases launched with e | launched
      · cases leads_done hrest
      · exact (triple_collected_docker word through false cancels m _ t trivial hrest).2 _ rfl
  · intro cancels s ended t leads
    rcases leads_bind leads with ⟨hout, -⟩ | ⟨found, m, -, hrest⟩
    · cases hout
    · rcases found with e | found
      · cases leads_done hrest
      · exact (triple_collected_docker word through false cancels m _ t trivial hrest).2 _ rfl

/-- A `docker` that does what it is told, and whose containers exit with 0. -/
def obedientDocker : DockerActs
  | .output args, _, s, answer, t =>
    (∃ name rest, args = "create" :: "--name" :: name :: rest ∧ answer = .ended true [] [] ∧
      t = s.put name (some .created)) ∨
    (∃ name, args = ["start", name] ∧ answer = .ended true [] [] ∧
      t = s.put name (some .running)) ∨
    (∃ name, args = ["rm", "-f", name] ∧ answer = .ended true [] [] ∧
      t = s.put name none) ∨
    (args.head? ≠ some "rm" ∧ answer = .ended true (utf8 "0\n") [] ∧ t = s)
  | .follow _, _, s, answer, t => answer = .ok () ∧ t = s
  | _, _, s, _, t => t = s

lemma obedientDocker_keepsItsWord : DockerKeepsItsWord obedientDocker where
  starts := by
    intro c given s answer t name acted hc hruns
    cases c with
    | output args =>
        rcases acted with ⟨other, rest, -, -, rfl⟩ | ⟨other, rfl, -, rfl⟩ | ⟨other, -, -, rfl⟩ |
          ⟨-, -, rfl⟩
        · by_cases hname : name = other
          · rw [hname, Containers.put_same] at hruns
            cases hruns
          · rwa [Containers.put_other hname] at hruns
        · have hname : name ≠ other := fun hsame => hc (by rw [hsame])
          rwa [Containers.put_other hname] at hruns
        · by_cases hname : name = other
          · rw [hname, Containers.put_same] at hruns
            cases hruns
          · rwa [Containers.put_other hname] at hruns
        · exact hruns
    | follow args =>
        obtain ⟨-, rfl⟩ := acted
        exact hruns
    | start args =>
        obtain rfl : t = s := acted
        exact hruns
    | logEnds =>
        obtain rfl : t = s := acted
        exact hruns
    | reap =>
        obtain rfl : t = s := acted
        exact hruns
    | isCancelled =>
        obtain rfl : t = s := acted
        exact hruns
  removes := by
    intro name given s answer t acted _
    rcases acted with ⟨other, rest, hargs, -⟩ | ⟨other, hargs, -⟩ | ⟨other, hargs, -, rfl⟩ |
      ⟨hother, -⟩
    · simp at hargs
    · simp at hargs
    · obtain rfl : name = other := by simpa using hargs
      exact Containers.put_same s name none
    · exact absurd rfl hother

lemma obedientDocker_removes : RemovesSucceed obedientDocker := by
  intro name given s answer t acted
  rcases acted with ⟨other, rest, -, rfl, -⟩ | ⟨other, -, rfl, -⟩ | ⟨other, -, rfl, -⟩ |
    ⟨-, rfl, -⟩
  · rfl
  · rfl
  · rfl
  · rfl

/-- A `docker` for one image. -/
def oneDocker : DockerRunner := ⟨"docker", "img:1"⟩

def oneRound : LaunchSpec := ⟨"al-1-1-0", ["run"], none, ["srv", "1", "frames"]⟩

/-- A round in a container that exits. -/
theorem settled_container_stopped_exited :
    ∃ t : Containers, Leads obedientDocker (Containers.DriftsAround "al-1-1-0")
        (oneDocker.launchedLife oneRound .default 0) (fun _ => none) (some (.ok (.exited 0))) t ∧
      t.Idle "al-1-1-0" := by
  have hasked : ∀ s, obedientDocker .isCancelled [] s false s := fun _ => rfl
  have hcode : exitCodeIn (.ok (utf8 "0\n")) = .ok 0 := by
    rw [exitCodeIn, fromUtf8Lossy_utf8]
    decide +kernel
  have hlaunch : ∀ s : Containers, Leads obedientDocker (Containers.DriftsAround "al-1-1-0")
      (oneDocker.launch oneRound .default) s (some (.ok ()))
      ((s.put "al-1-1-0" (some .created)).put "al-1-1-0" (some .running)) := by
    intro s
    have hcreate : Leads obedientDocker (Containers.DriftsAround "al-1-1-0")
        (oneDocker.createContainer oneRound .default) s (some (some (.ok [])))
        (s.put "al-1-1-0" (some .created)) :=
      .call (hasked s) (.call (.inl ⟨_, _, rfl, rfl, rfl⟩) (.call (hasked _) (.done _ _)))
    refine hcreate.bind ?_
    exact .call (.inr (.inl ⟨_, rfl, rfl, rfl⟩)) (.call ⟨rfl, rfl⟩ (.done _ _))
  have hexit : ∀ s, Leads obedientDocker (Containers.DriftsAround "al-1-1-0")
      (oneDocker.exitCode "al-1-1-0") s (some (.ok 0)) s := by
    intro s
    refine .call (.inr (.inr (.inr ⟨by decide, rfl, rfl⟩))) ?_
    rw [← hcode]
    exact .done _ _
  have hends : ∀ s, Leads obedientDocker (Containers.DriftsAround "al-1-1-0")
      (oneDocker.termination "al-1-1-0" false) s (some (.exited 0)) (s.put "al-1-1-0" none) := by
    intro s
    have hended : obedientDocker .logEnds [] s () s := rfl
    refine .call hended ?_
    refine (hexit s).bind ?_
    exact .call (.inr (.inr (.inl ⟨_, rfl, rfl, rfl⟩))) (.done _ _)
  have hlife : Leads obedientDocker (Containers.DriftsAround "al-1-1-0")
      (oneDocker.launchedLife oneRound .default 0) (fun _ => none) (some (.ok (.exited 0))) _ :=
    (hlaunch _).bind ((hends _).bind (.done _ _))
  exact ⟨_, hlife, ((settled_container_stopped obedientDocker_keepsItsWord oneDocker oneRound
    .default).2 obedientDocker_removes).2.1 0 _ _ _ hlife⟩

end Programs

/-! ## What is secret -/

/-- What a call of a round is given: nothing, or what its container's `create` is given. -/
def GivesOnlyCreate (runner : DockerRunner) (spec : LaunchSpec) (secrets : JobSecrets)
    (c : DockerCall) (given : List (String × String)) : Prop :=
  given = [] ∨
    c = .output (dockerCreateArgs runner.image spec.name (secrets.sorted.map Prod.fst) spec.args) ∧
      given = secrets.sorted

section Secrets

open Calls DockerRunner

variable {runner : DockerRunner} {spec : LaunchSpec} {secrets secrets' : JobSecrets}

lemma givesOnlyCreate_removeContainer (container : String) :
    (removeContainer container).All (GivesOnlyCreate runner spec secrets) :=
  ⟨.inl rfl, fun _ => trivial⟩

lemma givesOnlyCreate_succeeded (args : List String) :
    (runner.succeeded args []).All (GivesOnlyCreate runner spec secrets) :=
  ⟨.inl rfl, fun _ => trivial⟩

lemma givesOnlyCreate_launch :
    (runner.launch spec secrets).All (GivesOnlyCreate runner spec secrets) := by
  have hcreate : (runner.createContainer spec secrets).All (GivesOnlyCreate runner spec secrets) :=
    .unlessAsked (.bind ⟨.inr ⟨rfl, rfl⟩, fun _ => trivial⟩ fun _ => trivial) (.inl rfl)
  refine hcreate.bind ?_
  rintro (_ | created)
  · exact (givesOnlyCreate_removeContainer spec.name).bind fun _ => trivial
  · refine .bind ?_ ?_
    · cases created with
      | error e => trivial
      | ok stdout => exact givesOnlyCreate_succeeded _
    · rintro (e | started)
      · exact (givesOnlyCreate_removeContainer spec.name).bind fun _ => trivial
      · exact ⟨.inl rfl, fun _ => trivial⟩

lemma givesOnlyCreate_termination (container : String) (stopping : Bool) :
    (runner.termination container stopping).All (GivesOnlyCreate runner spec secrets) := by
  refine ⟨.inl rfl, fun _ => .bind ?_ fun _ => .bind ?_ fun code => .bind ?_ fun ended => ?_⟩
  · cases stopping with
    | true => exact ⟨.inl rfl, fun _ => trivial⟩
    | false => trivial
  · exact (givesOnlyCreate_succeeded _).bind fun _ => trivial
  · cases code with
    | error reason => trivial
    | ok code =>
        simp only [stoppedBecause]
        split
        · exact .bind (p := wasOomKilled container) ⟨.inl rfl, fun _ => trivial⟩ fun _ => trivial
        · trivial
  · exact (givesOnlyCreate_removeContainer container).bind fun _ => trivial

lemma givesOnlyCreate_collected (container : String) (stopping : Bool) (cancels : ℕ) :
    (runner.collected container stopping cancels).All (GivesOnlyCreate runner spec secrets) := by
  induction cancels generalizing stopping with
  | zero => exact (givesOnlyCreate_termination container stopping).bind fun _ => trivial
  | succ cancels ih => exact .bind ⟨.inl rfl, fun _ => trivial⟩ fun started => ih started

/-- **No secret is on a command line.**  Two sets of secrets of the same names make a round's
command lines the same, in their order, and all it returns, whatever `docker` answers; the values
are given to its container's `create` alone, in its environment. -/
theorem values_stay_in_the_environment (runner : DockerRunner) (spec : LaunchSpec)
    (secrets secrets' : JobSecrets) (cancels : ℕ)
    (names : secrets.sorted.map Prod.fst = secrets'.sorted.map Prod.fst) :
    SeenAlike (runner.launchedLife spec secrets cancels)
      (runner.launchedLife spec secrets' cancels) ∧
    (runner.launchedLife spec secrets cancels).All (GivesOnlyCreate runner spec secrets) := by
  refine ⟨?_, givesOnlyCreate_launch.tryBind fun _ =>
    givesOnlyCreate_collected spec.name false cancels⟩
  have hcreate : SeenAlike (runner.createContainer spec secrets)
      (runner.createContainer spec secrets') := by
    rw [createContainer, createContainer, names]
    exact SeenAlike.unlessAsked (SeenAlike.bind (.call _ _ _ fun _ => .refl _) fun _ => .refl _)
  exact SeenAlike.tryBind (hcreate.bind fun _ => .refl _) fun _ => .refl _

/-- Two values of one name. -/
theorem values_stay_in_the_environment_changed :
    SeenAlike
      (oneDocker.launchedLife oneRound ⟨[("GH_TOKEN", "t0ken")], by decide⟩ 0)
      (oneDocker.launchedLife oneRound ⟨[("GH_TOKEN", "another")], by decide⟩ 0) :=
  (values_stay_in_the_environment oneDocker oneRound ⟨[("GH_TOKEN", "t0ken")], by decide⟩
    ⟨[("GH_TOKEN", "another")], by decide⟩ 0 rfl).1

end Secrets

end AssemblyLine
