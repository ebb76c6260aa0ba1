import AssemblyLine.Framework.Mentions

/-!
# What a round's container receives

The environment of a round's container is chosen once, before the daemon listens: both tokens, and
each name `--pass-env` gives that is not reserved.  `JobSecrets.fromLookup` is the choice and every
problem with it, and `fromLookup_spec` says what it comes to for any list of names and any
environment of the host.
-/

namespace AssemblyLine

/-- The git credential a round in a container clones and pushes with. -/
def gitTokenVar : String := "ASSEMBLY_GIT_TOKEN"

/-- The forge credential `gh` opens a pull request with. -/
def forgeTokenVar : String := "GH_TOKEN"

/-- Names a round's container environment carries whatever `--pass-env` says. -/
def reservedEnvironment : List String := [gitTokenVar, forgeTokenVar]

/-- Something that stops a runner from launching a round. -/
inductive RunnerProblem
  | unreachable (runner detail : String)
  | notPermitted (verb resource kubernetesNamespace : String)
  | missingEnvironment (name : String)
  /-- `--pass-env` named a variable every round's container receives anyway. -/
  | reservedEnvironment (name : String)
  /-- The remote is a path on this machine, which a container cannot see. -/
  | remoteIsLocalPath (url : String)
deriving DecidableEq, Repr

/-- Environment a round's container receives, by name. -/
structure JobSecrets where
  vars : List (String × String)
  /-- A name has one value. -/
  nodup : (vars.map Prod.fst).Nodup

namespace JobSecrets

/-- A container that is sent nothing. -/
def default : JobSecrets := ⟨[], List.nodup_nil⟩

def names (secrets : JobSecrets) : List String := secrets.vars.map Prod.fst

/-- The names `--pass-env` gives that are reserved, and those that are not, each at its first
mention. -/
def partitioned (passEnv : List String) : List String × List String :=
  (firstMentions passEnv).partition fun name => name ∈ reservedEnvironment

/-- The names a container is to receive: both tokens, always, and those that were chosen. -/
def promised (passEnv : List String) : List String :=
  reservedEnvironment ++ (partitioned passEnv).2

/-- The promised names with their values on the host, those that have one and those that have
none. -/
def lookedUp (passEnv : List String) (lookup : String → Option String) :
    List (String × Option String) × List (String × Option String) :=
  ((promised passEnv).map fun name => (name, lookup name)).partition fun entry => entry.2.isSome

section Names

variable {passEnv : List String} {lookup : String → Option String} {name value : String}

lemma partitioned_eq (passEnv : List String) :
    partitioned passEnv =
      (passEnv.eraseDups.filter fun name => name ∈ reservedEnvironment,
        passEnv.eraseDups.filter fun name => name ∉ reservedEnvironment) := by
  rw [partitioned, firstMentions_eq_eraseDups, List.partition_eq_filter_filter]
  congr 1
  exact List.filter_congr fun name _ => by simp

lemma nodup_promised (passEnv : List String) : (promised passEnv).Nodup := by
  rw [promised, partitioned_eq]
  refine List.nodup_append.mpr ⟨by decide, (nodup_eraseDups passEnv).filter _, ?_⟩
  rintro reserved hreserved chosen hchosen rfl
  exact absurd hreserved (of_decide_eq_true (List.mem_filter.mp hchosen).2)

lemma mem_promised : name ∈ promised passEnv ↔ name ∈ reservedEnvironment ∨ name ∈ passEnv := by
  rw [promised, partitioned_eq, List.mem_append, List.mem_filter, List.mem_eraseDups,
    decide_eq_true_eq]
  constructor
  · rintro (hreserved | ⟨hpassed, -⟩)
    · exact .inl hreserved
    · exact .inr hpassed
  · rintro (hreserved | hpassed)
    · exact .inl hreserved
    · by_cases hreserved : name ∈ reservedEnvironment
      · exact .inl hreserved
      · exact .inr ⟨hpassed, hreserved⟩

/-- The pairs that are sent: a promised name and its value. -/
lemma mem_found : (name, value) ∈ (lookedUp passEnv lookup).1.filterMap
      (fun entry => entry.2.map fun value => (entry.1, value)) ↔
    name ∈ promised passEnv ∧ lookup name = some value := by
  simp only [lookedUp, List.partition_eq_filter_filter, List.mem_filterMap, List.mem_filter,
    List.mem_map, Option.map_eq_some_iff]
  constructor
  · rintro ⟨_, ⟨⟨other, hother, rfl⟩, -⟩, found, hfound, hpair⟩
    obtain ⟨rfl, rfl⟩ := Prod.mk.inj hpair
    exact ⟨hother, hfound⟩
  · rintro ⟨hname, hvalue⟩
    exact ⟨(name, lookup name), ⟨⟨name, hname, rfl⟩, by simp [hvalue]⟩, value, hvalue, rfl⟩

lemma nodup_found (passEnv : List String) (lookup : String → Option String) :
    (((lookedUp passEnv lookup).1.filterMap fun entry =>
      entry.2.map fun value => (entry.1, value)).map Prod.fst).Nodup := by
  have hnames : ((lookedUp passEnv lookup).1.filterMap fun entry =>
      entry.2.map fun value => (entry.1, value)).map Prod.fst =
        (promised passEnv).filter fun name => (lookup name).isSome := by
    simp only [lookedUp, List.partition_eq_filter_filter]
    induction promised passEnv with
    | nil => rfl
    | cons name names ih => cases hvalue : lookup name <;> simp_all
  rw [hnames]
  exact (nodup_promised passEnv).filter _

lemma missing_eq (passEnv : List String) (lookup : String → Option String) :
    (lookedUp passEnv lookup).2.map Prod.fst =
      (promised passEnv).filter fun name => lookup name = none := by
  simp only [lookedUp, List.partition_eq_filter_filter]
  induction promised passEnv with
  | nil => rfl
  | cons name names ih => cases hvalue : lookup name <;> simp_all

end Names

/-- Both tokens, always, plus each name in `passEnv`, looked up with `lookup`.  Every name that has
no value is a problem, and so is every name that is reserved. -/
def fromLookup (passEnv : List String) (lookup : String → Option String) :
    JobSecrets × List RunnerProblem :=
  (⟨(lookedUp passEnv lookup).1.filterMap fun entry => entry.2.map fun value => (entry.1, value),
      nodup_found passEnv lookup⟩,
    (partitioned passEnv).1.map .reservedEnvironment ++
      ((lookedUp passEnv lookup).2.map Prod.fst).map .missingEnvironment)

section Looking

variable {passEnv : List String} {lookup : String → Option String} {name value : String}

lemma mem_vars_fromLookup : (name, value) ∈ (fromLookup passEnv lookup).1.vars ↔
    (name ∈ reservedEnvironment ∨ name ∈ passEnv) ∧ lookup name = some value := by
  rw [← mem_promised]
  exact mem_found

lemma problems_fromLookup (passEnv : List String) (lookup : String → Option String) :
    (fromLookup passEnv lookup).2 =
      (passEnv.eraseDups.filter fun name => name ∈ reservedEnvironment).map
          .reservedEnvironment ++
        ((promised passEnv).filter fun name => lookup name = none).map .missingEnvironment := by
  rw [fromLookup, missing_eq, partitioned_eq]

lemma problems_fromLookup_eq_nil_iff : (fromLookup passEnv lookup).2 = [] ↔
    (∀ name ∈ passEnv, name ∉ reservedEnvironment) ∧
      ∀ name, name ∈ reservedEnvironment ∨ name ∈ passEnv → (lookup name).isSome := by
  rw [problems_fromLookup, List.append_eq_nil_iff, List.map_eq_nil_iff, List.map_eq_nil_iff,
    List.filter_eq_nil_iff, List.filter_eq_nil_iff]
  simp only [List.mem_eraseDups, mem_promised, decide_eq_true_eq, ← Option.isSome_iff_ne_none]

lemma nodup_problems (passEnv : List String) (lookup : String → Option String) :
    (fromLookup passEnv lookup).2.Nodup := by
  rw [problems_fromLookup]
  refine List.nodup_append.mpr ⟨?_, ?_, ?_⟩
  · exact ((nodup_eraseDups passEnv).filter _).map
      fun _ _ h => RunnerProblem.reservedEnvironment.inj h
  · exact ((nodup_promised passEnv).filter _).map
      fun _ _ h => RunnerProblem.missingEnvironment.inj h
  · rintro problem hreserved _ hmissing rfl
    obtain ⟨reserved, -, rfl⟩ := List.mem_map.mp hreserved
    obtain ⟨missing, -, hsame⟩ := List.mem_map.mp hmissing
    cases hsame

/-- A name that is passed again changes nothing. -/
lemma fromLookup_eraseDups (passEnv : List String) (lookup : String → Option String) :
    fromLookup passEnv.eraseDups lookup = fromLookup passEnv lookup := by
  have hsame : partitioned passEnv.eraseDups = partitioned passEnv := by
    rw [partitioned_eq, partitioned_eq, eraseDups_of_nodup (nodup_eraseDups passEnv)]
  have hpromised : promised passEnv.eraseDups = promised passEnv := by
    rw [promised, promised, hsame]
  have hlooked : lookedUp passEnv.eraseDups lookup = lookedUp passEnv lookup := by
    rw [lookedUp, lookedUp, hpromised]
  simp only [fromLookup, hlooked, hsame]

end Looking

/-- **A container receives exactly what it was promised**, and the problems are all there is to
say about what it cannot be sent.  First come the reserved names that were passed, then the tokens
and then the other names that have no value, each once and in order of first mention. -/
theorem fromLookup_spec (passEnv : List String) (lookup : String → Option String) :
    (∀ name value, (name, value) ∈ (fromLookup passEnv lookup).1.vars ↔
      (name ∈ reservedEnvironment ∨ name ∈ passEnv) ∧ lookup name = some value) ∧
    (fromLookup passEnv lookup).2 =
      (passEnv.eraseDups.filter fun name => name ∈ reservedEnvironment).map
          .reservedEnvironment ++
        ((reservedEnvironment ++
            passEnv.eraseDups.filter fun name => name ∉ reservedEnvironment).filter
          fun name => lookup name = none).map .missingEnvironment ∧
    (fromLookup passEnv lookup).2.Nodup ∧
    ((fromLookup passEnv lookup).2 = [] ↔
      (∀ name ∈ passEnv, name ∉ reservedEnvironment) ∧
        ∀ name, name ∈ reservedEnvironment ∨ name ∈ passEnv → (lookup name).isSome) ∧
    fromLookup passEnv.eraseDups lookup = fromLookup passEnv lookup := by
  refine ⟨fun _ _ => mem_vars_fromLookup, ?_, nodup_problems _ _, problems_fromLookup_eq_nil_iff,
    fromLookup_eraseDups _ _⟩
  rw [problems_fromLookup, promised, partitioned_eq]

end JobSecrets

/-! ## Before the daemon listens -/

/-- `Daemon::prepare`: the secrets a daemon sends its rounds, once its runner can run and every
credential is there.  The runner's own problems come first. -/
def prepareDaemon (runsInAContainer : Bool) (reasonsItCannotRun : List RunnerProblem)
    (passEnv : List String) (env : String → Option String) :
      Except (List RunnerProblem) JobSecrets :=
  let sent := if runsInAContainer then JobSecrets.fromLookup passEnv env else (.default, [])
  let problems := reasonsItCannotRun ++ sent.2
  if problems = [] then .ok sent.1 else .error problems

/-- A daemon whose rounds run in containers has a value for each name it was given, and both
tokens. -/
theorem prepareDaemon_container {reasonsItCannotRun : List RunnerProblem} {passEnv : List String}
    {env : String → Option String} {secrets : JobSecrets}
    (h : prepareDaemon true reasonsItCannotRun passEnv env = .ok secrets) (name : String) :
    name ∈ secrets.names ↔ name ∈ reservedEnvironment ∨ name ∈ passEnv := by
  simp only [prepareDaemon, if_true] at h
  split at h
  · rename_i hnone
    obtain rfl := Except.ok.inj h
    obtain ⟨-, hvalues⟩ :=
      JobSecrets.problems_fromLookup_eq_nil_iff.mp (List.append_eq_nil_iff.mp hnone).2
    rw [JobSecrets.names, List.mem_map]
    constructor
    · rintro ⟨⟨_, value⟩, hmem, rfl⟩
      exact (JobSecrets.mem_vars_fromLookup.mp hmem).1
    · intro hname
      obtain ⟨value, hvalue⟩ := Option.isSome_iff_exists.mp (hvalues name hname)
      exact ⟨(name, value), JobSecrets.mem_vars_fromLookup.mpr ⟨hname, hvalue⟩, rfl⟩
  · cases h

end AssemblyLine
