import AssemblyLine.Framework.Machine
import AssemblyLine.Run.LsRemote

/-!
# Claiming a job's id

A job's id is claimed by creating its branch on the remote.  `nextId` is the id a claim tries
after a listing of the remote's branches, `createBranchIfAbsent` what it makes of git's answer to
the push, and `claimFrom` the loop of `claim_job` over git's answers.

`Claiming` is any number of processes claiming on one remote while other parties push to it.  What
git promises of a listing and of a push is `GitKeepsItsWord`, in terms of the lines it prints, and
`claims_never_collide` is what follows for every interleaving: no two claims get one id, none gets
the id of a job whose branch was there when it listed, and a claim that fails has created nothing.
-/

namespace AssemblyLine

/-! ## A job's branch -/

def branchPrefix : String := "al/job-"

/-- The branch a job's rounds publish to. -/
def branchName (id : ℕ) : String := branchPrefix ++ toString id

/-- The job a branch name was made for by `branchName`. -/
def fromBranchName (branch : String) : Option ℕ :=
  ((stripPrefix branchPrefix branch).bind parseU64).filter fun id => branchName id = branch

/-- One past the highest job branch the remote carries. -/
def jobIdPast (remoteBranches : List String) : Option ℕ :=
  let past := (remoteBranches.filterMap fromBranchName).max?.getD 0 + 1
  if past ≤ u64Max then some past else none

section Branches

variable {branch : String} {id : ℕ} {branches : List String}

lemma fromBranchName_eq_some_iff :
    fromBranchName branch = some id ↔ id ≤ u64Max ∧ branch = branchName id := by
  simp only [fromBranchName, Option.filter_eq_some_iff, decide_eq_true_eq]
  constructor
  · rintro ⟨hparsed, hname⟩
    obtain ⟨digits, -, hid⟩ := Option.bind_eq_some_iff.mp hparsed
    exact ⟨le_of_parseU64 hid, hname.symm⟩
  · rintro ⟨hle, rfl⟩
    exact ⟨by rw [branchName, stripPrefix_append, Option.bind_some, parseU64_toString hle], rfl⟩

/-- The id past a listing is a `u64`, and past every job branch in it. -/
theorem jobIdPast_spec (h : jobIdPast branches = some id) :
    0 < id ∧ id ≤ u64Max ∧ ∀ j ≤ u64Max, branchName j ∈ branches → j < id := by
  simp only [jobIdPast, Option.ite_none_right_eq_some, Option.some.injEq] at h
  obtain ⟨hle, rfl⟩ := h
  refine ⟨Nat.succ_pos _, hle, ?_⟩
  intro j hj hmem
  have hlisted : j ∈ branches.filterMap fromBranchName :=
    List.mem_filterMap.mpr ⟨_, hmem, fromBranchName_eq_some_iff.mpr ⟨hj, rfl⟩⟩
  cases hmax : (branches.filterMap fromBranchName).max? with
  | none =>
      rw [List.max?_eq_none_iff] at hmax
      rw [hmax] at hlisted
      cases hlisted
  | some highest =>
      have hbound : j ≤ highest := (List.max?_eq_some_iff.mp hmax).2 j hlisted
      rw [Option.getD_some]
      omega

lemma notMem_of_branchName {c : Char} (hprefixed : c ∉ branchPrefix.toList) (hdigit : ¬ c.isDigit) :
    c ∉ (branchName id).toList := by
  rw [branchName, String.toList_append, List.mem_append]
  rintro (h | h)
  · exact hprefixed h
  · exact hdigit (toString_digits id c h)

end Branches

/-! ## Listing the branches and pushing one -/

/-- `"<sha>\trefs/heads/<branch>"` per line. -/
def listedBranches (stdout : String) : List String :=
  (textLines stdout).filterMap fun line => (splitOnce "\trefs/heads/" line).map Prod.snd

/-- The branches the remote carries whose names match the pattern asked for. -/
def remoteBranchesMatching (remote : String) (listed : GitAnswer) : Except String (List String) :=
  (listed.expectingSuccess s!"ls-remote {remote}").map listedBranches

/-- `"<flag>\t<from>:<to>\t<summary>"` per ref: the flag and summary of a line about `target`. -/
def flagAndSummary (target line : String) : Option (String × String) :=
  match fields '\t' line with
  | flag :: refs :: summary :: _ =>
    match stripSuffix target refs with
    | some source => if endsWith ":" source then some (flag, summary) else none
    | none => none
  | _ => none

/-- Create a branch on the remote, only if the remote has no such branch.  `false` means somebody
already has it. -/
def createBranchIfAbsent (remote branch : String) (pushed : GitAnswer) : Except String Bool :=
  match pushed with
  | .error e => .error e
  | .ok out =>
    let refused (summary : String) : Except String Bool :=
      .error (s!"creating {branch} on '{remote}' failed (exit {out.exitCode}): " ++
        " ".intercalate ([summary, trim out.stderr].filter (· ≠ "")))
    match (textLines out.stdout).findSome? (flagAndSummary ("refs/heads/" ++ branch)) with
    | some (flag, summary) =>
      if flag = "*" then .ok true
      else if flag = "=" then .ok false
      else if flag = "!" ∧
          (startsWith "[rejected]" summary ∨ endsWith "(reference already exists)" summary) then
        .ok false
      else refused summary
    | none => refused ""

/-- What git answers to the listing of a remote with these branches: it fails, or it prints a line
for each ref it lists, and lists every branch whose name matches the pattern. -/
inductive ListingReport (branches : String → Option String) : GitAnswer → Prop
  | notRun (e : String) : ListingReport branches (.error e)
  | failed (out : GitOutput) (status : out.exitCode ≠ 0) : ListingReport branches (.ok out)
  | listed (lines : List (String × String)) (complaints : String)
      (plain : ∀ line ∈ lines, Listable line)
      (there : ∀ line ∈ lines, ∃ branch, line.2 = "refs/heads/" ++ branch ∧
        branches branch = some line.1)
      (all : ∀ branch sha, startsWith branchPrefix branch = true → branches branch = some sha →
        (sha, "refs/heads/" ++ branch) ∈ lines) :
      ListingReport branches (.ok ⟨0, listingText lines, complaints⟩)

/-- What git reports of a push to `target` that has, or has not, created it: a line for the ref,
whose flag is a `*` when the push created it, after lines about no ref; or nothing, when it got no
further. -/
inductive PushReport (target : String) : Bool → GitAnswer → Prop
  | notRun (e : String) : PushReport target false (.error e)
  | nothing (out : GitOutput) (silent : ∀ line ∈ textLines out.stdout, '\t' ∉ line.toList) :
      PushReport target false (.ok out)
  | reported (out : GitOutput) (before after : List String) (flag source summary : String)
      (lines : textLines out.stdout =
        before ++ (flag ++ ("\t" ++ (source ++ ":" ++ target ++ ("\t" ++ summary)))) :: after)
      (header : ∀ line ∈ before, '\t' ∉ line.toList) (plain : '\t' ∉ flag.toList)
      (sha : '\t' ∉ source.toList) : PushReport target (flag = "*") (.ok out)

section Reports

variable {target : String}

/-- A listed branch is read off its line. -/
lemma splitOnce_refLine {sha : String} (hsha : isObjectId sha = true) (branch : String) :
    splitOnce "\trefs/heads/" (sha ++ "\t" ++ ("refs/heads/" ++ branch)) = some (sha, branch) := by
  have htab : '\t' ∉ sha.toList := notMem_of_isObjectId hsha (by decide)
  have hlist : (sha ++ "\t" ++ ("refs/heads/" ++ branch)).toList =
      sha.toList ++ ('\t' :: "refs/heads/".toList ++ branch.toList) := by simp
  have hpat : "\trefs/heads/".toList = '\t' :: "refs/heads/".toList := by decide
  rw [splitOnce, hlist, hpat, splitFirst_append (by decide) (splitFirst_of_notMem htab _)]
  simp

/-- A job's branch ends in a digit, so trimming takes nothing off it. -/
lemma endsInWhite_branchName (id : ℕ) : endsInWhite ("refs/heads/" ++ branchName id) = false := by
  have hne : (toString id).toList ≠ [] := by
    rw [Nat.toString_eq_ofList_toDigits, String.toList_ofList]
    exact Nat.toDigits_ne_nil
  have hlist : ("refs/heads/" ++ branchName id).toList =
      ("refs/heads/" ++ branchPrefix).toList ++ (toString id).toList := by
    simp [branchName]
  rw [endsInWhite, hlist, List.getLast?_append_of_ne_nil _ hne, Option.any_eq_false]
  intro c hc
  have hdigit : c.isDigit = true := toString_digits id c (List.mem_of_getLast? hc)
  have hplain := not_isWhitespace_of_isHexDigit (c := c) (by simp [isHexDigit, hdigit])
  simp [hplain]

/-- **A listing shows every job branch there is.** -/
theorem branchName_mem_of_report {remote : String} {branches : String → Option String}
    {listed : GitAnswer} {names : List String} {id : ℕ} (report : ListingReport branches listed)
    (hnames : remoteBranchesMatching remote listed = .ok names)
    (hthere : branches (branchName id) ≠ none) : branchName id ∈ names := by
  cases report with
  | notRun e => cases hnames
  | failed out status =>
      rw [remoteBranchesMatching, GitAnswer.expectingSuccess, if_neg status] at hnames
      cases hnames
  | listed lines complaints plain there all =>
      obtain ⟨sha, hsha⟩ := Option.ne_none_iff_exists'.mp hthere
      have hmem := all _ sha (startsWith_iff.mpr ⟨_, rfl⟩) hsha
      rw [remoteBranchesMatching, GitAnswer.expectingSuccess, if_pos rfl] at hnames
      obtain rfl := Except.ok.inj hnames
      have hread : (splitOnce "\trefs/heads/"
          (sha ++ "\t" ++ ("refs/heads/" ++ branchName id))).map Prod.snd =
            some (branchName id) := by
        rw [splitOnce_refLine (plain _ hmem).1]
        rfl
      refine List.mem_filterMap.mpr ⟨_, ?_, hread⟩
      rcases List.eq_nil_or_concat lines with rfl | ⟨before, last, rfl⟩
      · cases hmem
      · rw [List.concat_eq_append] at plain hmem ⊢
        obtain ⟨kept, hlines, hkept, -⟩ := textLines_listingText plain
        rw [hlines]
        rcases List.mem_append.mp hmem with hbefore | hlast
        · exact List.mem_append_left _ (List.mem_map.mpr ⟨_, hbefore, rfl⟩)
        · obtain rfl := List.mem_singleton.mp hlast
          rw [hkept (endsInWhite_branchName id), ← String.append_assoc]
          exact List.mem_append_right _ (List.mem_singleton_self _)

lemma flagAndSummary_of_notMem {line : String} (h : '\t' ∉ line.toList) :
    flagAndSummary target line = none := by
  rw [flagAndSummary, fields_of_notMem h]

/-- A ref's line gives its flag. -/
lemma flagAndSummary_line {flag source : String} (hflag : '\t' ∉ flag.toList)
    (hsource : '\t' ∉ source.toList) (htarget : '\t' ∉ target.toList) (summary : String) :
    ∃ summary', flagAndSummary target
      (flag ++ ("\t" ++ (source ++ ":" ++ target ++ ("\t" ++ summary)))) =
        some (flag, summary') := by
  have hrefs : '\t' ∉ (source ++ ":" ++ target).toList := by
    simp only [String.toList_append, List.mem_append, not_or]
    exact ⟨⟨hsource, by decide⟩, htarget⟩
  have hfields : fields '\t' (flag ++ ("\t" ++ (source ++ ":" ++ target ++ ("\t" ++ summary)))) =
      flag :: (source ++ ":" ++ target) :: fields '\t' summary := by
    have hfirst := fields_append hflag (source ++ ":" ++ target ++ ("\t" ++ summary))
    have hsecond := fields_append hrefs summary
    exact hfirst.trans (congrArg (flag :: ·) hsecond)
  cases hsummary : fields '\t' summary with
  | nil => simp [fields, List.splitOn] at hsummary
  | cons summary' more =>
      refine ⟨summary', ?_⟩
      rw [flagAndSummary, hfields, hsummary]
      simp

/-- The push is taken to have created the branch exactly when git reports that it did, and to have
failed or lost only when it did not. -/
theorem createBranchIfAbsent_iff (remote : String) {branch : String} {created : Bool}
    {pushed : GitAnswer} (hbranch : '\t' ∉ branch.toList)
    (report : PushReport ("refs/heads/" ++ branch) created pushed) :
    createBranchIfAbsent remote branch pushed = .ok true ↔ created = true := by
  have htarget : '\t' ∉ ("refs/heads/" ++ branch).toList := by
    rw [String.toList_append, List.mem_append]
    rintro (h | h)
    · exact absurd h (by decide)
    · exact hbranch h
  cases report with
  | notRun e => simp [createBranchIfAbsent]
  | nothing out silent =>
      have hnone : (textLines out.stdout).findSome?
          (flagAndSummary ("refs/heads/" ++ branch)) = none := by
        rw [List.findSome?_eq_none_iff]
        exact fun line hline => flagAndSummary_of_notMem (silent line hline)
      simp [createBranchIfAbsent, hnone]
  | reported out before after flag source summary lines header plain sha =>
      obtain ⟨summary', hline⟩ := flagAndSummary_line plain sha htarget summary
      have hbefore : before.findSome? (flagAndSummary ("refs/heads/" ++ branch)) = none := by
        rw [List.findSome?_eq_none_iff]
        exact fun line hline => flagAndSummary_of_notMem (header line hline)
      have hfound : (textLines out.stdout).findSome?
          (flagAndSummary ("refs/heads/" ++ branch)) = some (flag, summary') := by
        rw [lines, List.findSome?_append, hbefore, Option.none_or, List.findSome?_cons, hline]
      simp only [createBranchIfAbsent, hfound, decide_eq_true_eq]
      by_cases hstar : flag = "*"
      · simp [hstar]
      · rw [if_neg hstar]
        refine iff_of_false ?_ hstar
        split_ifs <;> simp

end Reports

/-! ## A claim -/

/-- How many ids a claim tries before giving up. -/
def claimAttempts : ℕ := 16

def lastIdTaken : String :=
  s!"a job branch has taken the last job id — delete {branchName u64Max} from the remote"

def lostEveryRace (remote : String) : String :=
  s!"could not claim a job id on '{remote}': {claimAttempts} attempts in a row lost " ++
    "to another claimer — try again"

/-- The id a claim tries, from its listing of the remote. -/
def nextId (remote : String) (listed : GitAnswer) : Except String ℕ :=
  match remoteBranchesMatching remote listed with
  | .error e => .error e
  | .ok taken =>
    match jobIdPast taken with
    | some id => .ok id
    | none => .error lastIdTaken

/-- What git does for one attempt: its answers, and whether the push created the branch. -/
structure Attempt where
  listed : GitAnswer
  pushed : GitAnswer
  created : Bool

/-- One attempt of a claim, and what comes of it: the claim's result, and the branches it created.
`lost` is what comes of the attempts after a lost race. -/
def claimOnce (remote : String) (attempt : Attempt) (lost : Except String ℕ × List String) :
    Except String ℕ × List String :=
  match nextId remote attempt.listed with
  | .error e => (.error e, [])
  | .ok id =>
    let created := if attempt.created then [branchName id] else []
    match createBranchIfAbsent remote (branchName id) attempt.pushed with
    | .error e => (.error e, created)
    | .ok true => (.ok id, created)
    | .ok false => (lost.1, created ++ lost.2)

/-- The loop of `claim_job`, with `left` attempts after the next one. -/
def claimFrom (remote : String) (git : ℕ → Attempt) : ℕ → Except String ℕ × List String
  | 0 => claimOnce remote (git 0) (.error (lostEveryRace remote), [])
  | left + 1 => claimOnce remote (git (left + 1)) (claimFrom remote git left)

/-- The next free job id on the remote, claimed by creating its branch. -/
def claimJob (remote : String) (git : ℕ → Attempt) : Except String ℕ × List String :=
  claimFrom remote git (claimAttempts - 1)

/-- git reports of every push what the push did. -/
def Attempt.Honest (remote : String) (attempt : Attempt) : Prop :=
  ∀ id, nextId remote attempt.listed = .ok id →
    PushReport ("refs/heads/" ++ branchName id) attempt.created attempt.pushed

section Claims

variable {remote : String} {id : ℕ}

lemma tab_notMem_branchName (id : ℕ) : '\t' ∉ (branchName id).toList :=
  notMem_of_branchName (by decide) (by decide)

/-- A claim creates the branch of the id it returns, and nothing when it fails. -/
def ClaimCreates (claim : Except String ℕ × List String) : Prop :=
  match claim.1 with
  | .error _ => claim.2 = []
  | .ok id => claim.2 = [branchName id] ∧ 0 < id ∧ id ≤ u64Max

lemma nextId_spec {listed : GitAnswer} (h : nextId remote listed = .ok id) :
    ∃ names, remoteBranchesMatching remote listed = .ok names ∧ 0 < id ∧ id ≤ u64Max ∧
      ∀ j ≤ u64Max, branchName j ∈ names → j < id := by
  unfold nextId at h
  split at h
  · cases h
  · rename_i names hnames
    split at h
    · rename_i past hpast
      obtain rfl := Except.ok.inj h
      exact ⟨names, hnames, jobIdPast_spec hpast⟩
    · cases h

lemma claimOnce_creates {attempt : Attempt} {lost : Except String ℕ × List String}
    (honest : attempt.Honest remote) (hlost : ClaimCreates lost) :
    ClaimCreates (claimOnce remote attempt lost) := by
  unfold claimOnce
  split
  · exact rfl
  · rename_i id hid
    obtain ⟨-, -, hpos, hle, -⟩ := nextId_spec hid
    have hcreated := createBranchIfAbsent_iff remote (tab_notMem_branchName id)
      (honest id hid)
    cases hpush : createBranchIfAbsent remote (branchName id) attempt.pushed with
    | error e =>
        rw [hpush] at hcreated
        have hnone : attempt.created = false := by simpa using hcreated
        simp [hnone, ClaimCreates]
    | ok won =>
        cases won with
        | true =>
            have hyes : attempt.created = true := hcreated.mp hpush
            simp [hyes, ClaimCreates, hpos, hle]
        | false =>
            rw [hpush] at hcreated
            have hnone : attempt.created = false := by simpa using hcreated
            simpa [hnone] using hlost

/-- **A claim that fails has created nothing**, and one that succeeds only its own branch. -/
theorem claimJob_creates {git : ℕ → Attempt} (honest : ∀ k, (git k).Honest remote) :
    ClaimCreates (claimJob remote git) := by
  have hfrom : ∀ left, ClaimCreates (claimFrom remote git left) := by
    intro left
    induction left with
    | zero => exact claimOnce_creates (honest 0) rfl
    | succ left ih => exact claimOnce_creates (honest (left + 1)) ih
  exact hfrom _

end Claims

/-! ## Claims racing on one remote -/

/-- Where a process is in `claim_job`. -/
inductive ClaimPhase
  /-- About to list, with `left` attempts after this one. -/
  | listing (left : ℕ)
  | pushing (left id : ℕ)
  | returned (result : Except String ℕ)
deriving DecidableEq

def ClaimPhase.afterListing (remote : String) (left : ℕ) (listed : GitAnswer) : ClaimPhase :=
  match nextId remote listed with
  | .error e => .returned (.error e)
  | .ok id => .pushing left id

def ClaimPhase.afterLoss (remote : String) : ℕ → ClaimPhase
  | 0 => .returned (.error (lostEveryRace remote))
  | left + 1 => .listing left

def ClaimPhase.afterPush (remote : String) (left id : ℕ) (pushed : GitAnswer) : ClaimPhase :=
  match createBranchIfAbsent remote (branchName id) pushed with
  | .error e => .returned (.error e)
  | .ok true => .returned (.ok id)
  | .ok false => .afterLoss remote left

/-- A remote's branches with their commits, and the processes claiming on it. -/
structure Claiming (P : Type*) where
  branches : String → Option String
  claim : P → ClaimPhase

inductive ClaimAction (P : Type*)
  | list (p : P) (listed : GitAnswer)
  | push (p : P) (pushed : GitAnswer) (created : Bool)
  /-- Somebody else creates a branch, or moves one. -/
  | other (branch sha : String)

/-- What an observer of the remote notes. -/
inductive ClaimMark (P : Type*)
  /-- A listing, with the branches there are when it is made. -/
  | listed (p : P) (there : String → Option String) (names : Except String (List String))
  | pushed (p : P) (id : ℕ)
  /-- A branch is created at a commit, by a process or by somebody else. -/
  | created (creator : Option P) (branch sha : String)

namespace Claiming

variable {P : Type*} [DecidableEq P] (remote : String) (baseSha : P → String)

def step (s : Claiming P) : ClaimAction P → Option (Claiming P)
  | .list p listed =>
    match s.claim p with
    | .listing left =>
      some { s with claim := Function.update s.claim p (.afterListing remote left listed) }
    | _ => none
  | .push p pushed created =>
    match s.claim p with
    | .pushing left id =>
      some
        { branches :=
            if created then Function.update s.branches (branchName id) (some (baseSha p))
            else s.branches
          claim := Function.update s.claim p (.afterPush remote left id pushed) }
    | _ => none
  | .other branch sha => some { s with branches := Function.update s.branches branch (some sha) }

def shown (s : Claiming P) : ClaimAction P → List (ClaimMark P)
  | .list p listed => [.listed p s.branches (remoteBranchesMatching remote listed)]
  | .push p _ created =>
    match s.claim p with
    | .pushing _ id =>
      .pushed p id :: if created then [.created (some p) (branchName id) (baseSha p)] else []
    | _ => []
  | .other branch sha =>
    match s.branches branch with
    | none => [.created none branch sha]
    | some _ => []

/-- What git promises: a listing is of the branches that exist when it is made, and a leased push
creates a branch only where there is none, and reports whether it did. -/
def GitKeepsItsWord (s : Claiming P) : ClaimAction P → Prop
  | .list _ listed => ListingReport s.branches listed
  | .push p pushed created =>
    ∀ left id, s.claim p = .pushing left id →
      PushReport ("refs/heads/" ++ branchName id) created pushed ∧
        (created = true → s.branches (branchName id) = none)
  | .other _ _ => True

/-- Every process is about to begin its claim. -/
def Begins (s : Claiming P) : Prop := ∀ p, s.claim p = .listing (claimAttempts - 1)

end Claiming

/-! ## What the processes have done -/

section Histories

variable {P : Type*} [DecidableEq P]

/-- The listings of a process, with the branches there were at each. -/
def listingsOf (h : List (ClaimMark P)) (p : P) :
    List ((String → Option String) × Except String (List String)) :=
  h.filterMap fun mark => match mark with
    | .listed q there names => if q = p then some (there, names) else none
    | _ => none

def pushesOf (h : List (ClaimMark P)) (p : P) : List ℕ :=
  h.filterMap fun mark => match mark with
    | .pushed q id => if q = p then some id else none
    | _ => none

/-- Every branch created, with its creator and the commit it was created at. -/
def creations (h : List (ClaimMark P)) : List (Option P × String × String) :=
  h.filterMap fun mark => match mark with
    | .created creator branch sha => some (creator, branch, sha)
    | _ => none

/-- What a process has created. -/
def creationsOf (h : List (ClaimMark P)) (p : P) : List (Option P × String × String) :=
  (creations h).filter fun creation => creation.1 = some p

variable (h k : List (ClaimMark P)) (p q : P)

@[simp] lemma listingsOf_append : listingsOf (h ++ k) p = listingsOf h p ++ listingsOf k p :=
  List.filterMap_append

@[simp] lemma pushesOf_append : pushesOf (h ++ k) p = pushesOf h p ++ pushesOf k p :=
  List.filterMap_append

omit [DecidableEq P] in
@[simp] lemma creations_append : creations (h ++ k) = creations h ++ creations k :=
  List.filterMap_append

@[simp] lemma creationsOf_append : creationsOf (h ++ k) p = creationsOf h p ++ creationsOf k p := by
  simp [creationsOf]

@[simp] lemma listingsOf_listed (there : String → Option String)
    (names : Except String (List String)) :
    listingsOf [.listed q there names] p = if q = p then [(there, names)] else [] := by
  unfold listingsOf
  split_ifs with hq <;> simp [hq]

@[simp] lemma pushesOf_listed (there : String → Option String)
    (names : Except String (List String)) : pushesOf [.listed q there names] p = [] := rfl

omit [DecidableEq P] in
@[simp] lemma creations_listed (there : String → Option String)
    (names : Except String (List String)) : creations [.listed q there names] = [] := rfl

@[simp] lemma listingsOf_pushed (id : ℕ) (rest : List (ClaimMark P)) :
    listingsOf (.pushed q id :: rest) p = listingsOf rest p := rfl

@[simp] lemma pushesOf_pushed (id : ℕ) (rest : List (ClaimMark P)) :
    pushesOf (.pushed q id :: rest) p = (if q = p then [id] else []) ++ pushesOf rest p := by
  unfold pushesOf
  split_ifs with hq <;> simp [hq]

omit [DecidableEq P] in
@[simp] lemma creations_pushed (id : ℕ) (rest : List (ClaimMark P)) :
    creations (.pushed q id :: rest) = creations rest := rfl

@[simp] lemma listingsOf_created (creator : Option P) (branch sha : String) :
    listingsOf [.created creator branch sha] p = [] := rfl

@[simp] lemma pushesOf_created (creator : Option P) (branch sha : String) :
    pushesOf [.created creator branch sha] p = [] := rfl

omit [DecidableEq P] in
@[simp] lemma creations_created (creator : Option P) (branch sha : String) :
    creations [.created creator branch sha] = [(creator, branch, sha)] := rfl

end Histories

/-! ## The invariant -/

section Racing

variable {P : Type*} [DecidableEq P] {remote : String} {baseSha : P → String}
  {h : List (ClaimMark P)} {s t : Claiming P} {p q : P}

/-- An id past every job branch that a process's last listing showed, or that there was when it was
made. -/
def PastListing (h : List (ClaimMark P)) (p : P) (id : ℕ) : Prop :=
  id ≤ u64Max ∧ ∃ there names, (listingsOf h p).getLast? = some (there, .ok names) ∧
    ∀ j ≤ u64Max, branchName j ∈ names ∨ there (branchName j) ≠ none → j < id

/-- What a process has done by the time it is at a phase of its claim. -/
def Claimed (baseSha : P → String) (h : List (ClaimMark P)) (p : P) : ClaimPhase → Prop
  | .listing left =>
    (listingsOf h p).length + (left + 1) = claimAttempts ∧
      (pushesOf h p).length = (listingsOf h p).length ∧ creationsOf h p = []
  | .pushing left id =>
    (listingsOf h p).length + left = claimAttempts ∧
      (pushesOf h p).length + 1 = (listingsOf h p).length ∧ creationsOf h p = [] ∧
      PastListing h p id
  | .returned result =>
    (listingsOf h p).length ≤ claimAttempts ∧ (pushesOf h p).length ≤ (listingsOf h p).length ∧
      match result with
      | .error _ => creationsOf h p = []
      | .ok id => creationsOf h p = [(some p, branchName id, baseSha p)] ∧ PastListing h p id

/-- What always holds of processes claiming on one remote. -/
structure ClaimsInv (baseSha : P → String) (h : List (ClaimMark P)) (s : Claiming P) : Prop where
  /-- Nobody deletes a branch. -/
  present : ∀ creation ∈ creations h, s.branches creation.2.1 ≠ none
  once : ((creations h).map fun creation => creation.2.1).Nodup
  claimed : ∀ p, Claimed baseSha h p (s.claim p)
  pushed : ∀ p, ∀ id ∈ pushesOf h p, id ≤ u64Max

/-- A process has done nothing in what concerns only others. -/
lemma Claimed.of_same {k : List (ClaimMark P)} {phase : ClaimPhase}
    (claimed : Claimed baseSha h p phase) (hlistings : listingsOf k p = [])
    (hpushes : pushesOf k p = []) (hcreations : creationsOf k p = []) :
    Claimed baseSha (h ++ k) p phase := by
  cases phase with
  | listing left => simpa [Claimed, hlistings, hpushes, hcreations] using claimed
  | pushing left id => simpa [Claimed, PastListing, hlistings, hpushes, hcreations] using claimed
  | returned result =>
      cases result <;> simpa [Claimed, PastListing, hlistings, hpushes, hcreations] using claimed

/-- What a process has done after a listing. -/
lemma Claimed.afterListing {left : ℕ} (claimed : Claimed baseSha h p (.listing left))
    {there : String → Option String} {listed : GitAnswer} (report : ListingReport there listed) :
    Claimed baseSha (h ++ [.listed p there (remoteBranchesMatching remote listed)]) p
      (.afterListing remote left listed) := by
  obtain ⟨hlistings, hpushes, hcreations⟩ := claimed
  unfold ClaimPhase.afterListing
  split
  · refine ⟨?_, ?_, ?_⟩
    · simp only [listingsOf_append, listingsOf_listed, if_pos, List.length_append,
        List.length_singleton]
      omega
    · simp only [pushesOf_append, listingsOf_append, listingsOf_listed, if_pos, List.length_append,
        List.length_singleton, pushesOf_listed, List.length_nil]
      omega
    · simpa [creationsOf] using hcreations
  · rename_i id hid
    obtain ⟨names, hnames, -, hle, hpast⟩ := nextId_spec hid
    refine ⟨?_, ?_, ?_, hle, there, names, ?_, ?_⟩
    · simp only [listingsOf_append, listingsOf_listed, if_pos, List.length_append,
        List.length_singleton]
      omega
    · simp only [pushesOf_append, listingsOf_append, listingsOf_listed, if_pos, List.length_append,
        List.length_singleton, pushesOf_listed, List.length_nil]
      omega
    · simpa [creationsOf] using hcreations
    · simp [hnames]
    · rintro j hj (hlisted | hthere)
      · exact hpast j hj hlisted
      · exact hpast j hj (branchName_mem_of_report report hnames hthere)

/-- What an observer notes of a push. -/
def pushMarks (baseSha : P → String) (p : P) (id : ℕ) (created : Bool) : List (ClaimMark P) :=
  .pushed p id :: if created then [.created (some p) (branchName id) (baseSha p)] else []

lemma listingsOf_pushMarks (id : ℕ) (created : Bool) :
    listingsOf (pushMarks baseSha p id created) q = [] := by
  unfold pushMarks
  split <;> rfl

lemma pushesOf_pushMarks (id : ℕ) (created : Bool) :
    pushesOf (pushMarks baseSha p id created) q = if p = q then [id] else [] := by
  have hrest : pushesOf
      (if created then [ClaimMark.created (some p) (branchName id) (baseSha p)] else []) q =
        [] := by
    split <;> rfl
  rw [pushMarks, pushesOf_pushed, hrest, List.append_nil]

omit [DecidableEq P] in
lemma creations_pushMarks (id : ℕ) (created : Bool) :
    creations (pushMarks baseSha p id created) =
      if created then [(some p, branchName id, baseSha p)] else [] := by
  unfold pushMarks
  split <;> simp [creations]

lemma creationsOf_pushMarks (id : ℕ) (created : Bool) :
    creationsOf (pushMarks baseSha p id created) q =
      if created = true ∧ p = q then [(some p, branchName id, baseSha p)] else [] := by
  rw [creationsOf, creations_pushMarks]
  cases created <;> simp [List.filter_singleton]

/-- What a process has done after a push. -/
lemma Claimed.afterPush {left id : ℕ} {created : Bool} {pushed : GitAnswer}
    (claimed : Claimed baseSha h p (.pushing left id))
    (report : PushReport ("refs/heads/" ++ branchName id) created pushed) :
    Claimed baseSha (h ++ pushMarks baseSha p id created) p
      (.afterPush remote left id pushed) := by
  obtain ⟨hlistings, hpushes, hcreations, hpast⟩ := claimed
  have hcreated := createBranchIfAbsent_iff remote (tab_notMem_branchName id) report
  have hlistings' : listingsOf (h ++ pushMarks baseSha p id created) p = listingsOf h p := by
    rw [listingsOf_append, listingsOf_pushMarks, List.append_nil]
  have hpushes' : (pushesOf (h ++ pushMarks baseSha p id created) p).length =
      (pushesOf h p).length + 1 := by
    rw [pushesOf_append, pushesOf_pushMarks, if_pos rfl, List.length_append, List.length_singleton]
  have hcreations' : creationsOf (h ++ pushMarks baseSha p id created) p =
      if created then [(some p, branchName id, baseSha p)] else [] := by
    rw [creationsOf_append, hcreations, List.nil_append, creationsOf_pushMarks]
    simp
  unfold ClaimPhase.afterPush
  cases hpush : createBranchIfAbsent remote (branchName id) pushed with
  | error e =>
      have hnone : created = false := by
        rw [hpush] at hcreated
        simpa using hcreated
      refine ⟨?_, ?_, ?_⟩
      · rw [hlistings']
        omega
      · rw [hpushes', hlistings']
        omega
      · change creationsOf _ p = []
        rw [hcreations', if_neg (by simp [hnone])]
  | ok won =>
      cases won with
      | true =>
          have hyes : created = true := hcreated.mp hpush
          refine ⟨?_, ?_, ?_, ?_⟩
          · rw [hlistings']
            omega
          · rw [hpushes', hlistings']
            omega
          · rw [hcreations', if_pos hyes]
          · rw [PastListing, hlistings']
            exact hpast
      | false =>
          have hnone : created = false := by
            rw [hpush] at hcreated
            simpa using hcreated
          cases left with
          | zero =>
              refine ⟨?_, ?_, ?_⟩
              · rw [hlistings']
                omega
              · rw [hpushes', hlistings']
                omega
              · change creationsOf _ p = []
                rw [hcreations', if_neg (by simp [hnone])]
          | succ left =>
              refine ⟨?_, ?_, ?_⟩
              · rw [hlistings']
                omega
              · rw [hpushes', hlistings']
                omega
              · rw [hcreations', if_neg (by simp [hnone])]

omit [DecidableEq P] in
/-- A branch created where there was none is a new one, and none is deleted. -/
lemma ClaimsInv.create {branches : String → Option String}
    (present : ∀ creation ∈ creations h, branches creation.2.1 ≠ none)
    (once : ((creations h).map fun creation => creation.2.1).Nodup)
    (creator : Option P) {branch : String} (sha : String) (hfree : branches branch = none) :
    (∀ creation ∈ creations h ++ [(creator, branch, sha)],
        Function.update branches branch (some sha) creation.2.1 ≠ none) ∧
      ((creations h ++ [(creator, branch, sha)]).map fun creation => creation.2.1).Nodup := by
  constructor
  · intro creation hcreation
    by_cases hbranch : creation.2.1 = branch
    · rw [hbranch, Function.update_self]
      simp
    · rw [Function.update_of_ne hbranch]
      rcases List.mem_append.mp hcreation with hold | hnew
      · exact present creation hold
      · rw [List.mem_singleton.mp hnew] at hbranch
        exact absurd rfl hbranch
  · rw [List.map_append, List.nodup_append]
    refine ⟨once, List.nodup_singleton _, ?_⟩
    rintro _ hold _ hnew rfl
    obtain ⟨creation, hcreation, hbranch⟩ := List.mem_map.mp hold
    rw [List.map_singleton, List.mem_singleton] at hnew
    exact present creation hcreation (by rw [hbranch, hnew, hfree])

lemma ClaimsInv.list (inv : ClaimsInv baseSha h s) {left : ℕ} {listed : GitAnswer}
    (listing : s.claim p = .listing left) (report : ListingReport s.branches listed) :
    ClaimsInv baseSha (h ++ [.listed p s.branches (remoteBranchesMatching remote listed)])
      { s with claim := Function.update s.claim p (.afterListing remote left listed) } := by
  refine ⟨?_, ?_, ?_, ?_⟩
  · simpa using inv.present
  · simpa using inv.once
  · intro q
    by_cases hq : q = p
    · subst hq
      dsimp only
      rw [Function.update_self]
      exact (listing ▸ inv.claimed q).afterListing report
    · dsimp only
      rw [Function.update_of_ne hq]
      exact (inv.claimed q).of_same (by simp [Ne.symm hq]) rfl rfl
  · intro q id hid
    exact inv.pushed q id (by simpa using hid)

lemma ClaimsInv.push (inv : ClaimsInv baseSha h s) {left id : ℕ} {pushed : GitAnswer}
    {created : Bool} (pushing : s.claim p = .pushing left id)
    (report : PushReport ("refs/heads/" ++ branchName id) created pushed)
    (hfree : created = true → s.branches (branchName id) = none) :
    ClaimsInv baseSha (h ++ pushMarks baseSha p id created)
      { branches :=
          if created then Function.update s.branches (branchName id) (some (baseSha p))
          else s.branches
        claim := Function.update s.claim p (.afterPush remote left id pushed) } := by
  have hclaimed : Claimed baseSha h p (.pushing left id) := pushing ▸ inv.claimed p
  have hcreations : (∀ creation ∈ creations (h ++ pushMarks baseSha p id created),
      (if created then Function.update s.branches (branchName id) (some (baseSha p))
        else s.branches) creation.2.1 ≠ none) ∧
      ((creations (h ++ pushMarks baseSha p id created)).map
        fun creation => creation.2.1).Nodup := by
    rw [creations_append, creations_pushMarks]
    cases created with
    | true => exact create inv.present inv.once (some p) (baseSha p) (hfree rfl)
    | false =>
        rw [if_neg Bool.false_ne_true, if_neg Bool.false_ne_true, List.append_nil]
        exact ⟨inv.present, inv.once⟩
  refine ⟨hcreations.1, hcreations.2, ?_, ?_⟩
  · intro q
    by_cases hq : q = p
    · subst hq
      dsimp only
      rw [Function.update_self]
      exact hclaimed.afterPush report
    · dsimp only
      rw [Function.update_of_ne hq]
      refine (inv.claimed q).of_same (listingsOf_pushMarks ..) ?_ ?_
      · rw [pushesOf_pushMarks, if_neg (Ne.symm hq)]
      · rw [creationsOf_pushMarks, if_neg fun h => Ne.symm hq h.2]
  · intro q id' hid'
    rw [pushesOf_append, pushesOf_pushMarks, List.mem_append] at hid'
    rcases hid' with hold | hnew
    · exact inv.pushed q id' hold
    · split at hnew
      · rw [List.mem_singleton.mp hnew]
        exact hclaimed.2.2.2.1
      · cases hnew

/-- What others do to the remote's branches, they do to none of the processes. -/
lemma ClaimsInv.other (inv : ClaimsInv baseSha h s) (branch sha : String) :
    ClaimsInv baseSha (h ++ Claiming.shown remote baseSha s (.other branch sha))
      { s with branches := Function.update s.branches branch (some sha) } := by
  simp only [Claiming.shown]
  split
  · rename_i hfree
    obtain ⟨hpresent, honce⟩ := create inv.present inv.once none sha hfree
    refine ⟨by simpa using hpresent, by simpa using honce, ?_, ?_⟩
    · intro p
      exact (inv.claimed p).of_same rfl rfl (by simp [creationsOf])
    · intro p id hid
      exact inv.pushed p id (by simpa using hid)
  · rename_i sha' hthere
    rw [List.append_nil]
    refine ⟨?_, inv.once, inv.claimed, inv.pushed⟩
    intro creation hcreation
    by_cases hbranch : creation.2.1 = branch
    · rw [hbranch]
      simp
    · dsimp only
      rw [Function.update_of_ne hbranch]
      exact inv.present creation hcreation

/-- Every step keeps the invariant, when git keeps its word. -/
lemma ClaimsInv.step (inv : ClaimsInv baseSha h s) {act : ClaimAction P}
    (word : Claiming.GitKeepsItsWord s act)
    (hstep : Claiming.step remote baseSha s act = some t) :
    ClaimsInv baseSha (h ++ Claiming.shown remote baseSha s act) t := by
  cases act with
  | list p listed =>
      simp only [Claiming.step] at hstep
      split at hstep
      · rename_i left listing
        obtain rfl := Option.some.inj hstep
        exact inv.list listing word
      · cases hstep
  | push p pushed created =>
      simp only [Claiming.step] at hstep
      split at hstep
      · rename_i left id pushing
        obtain rfl := Option.some.inj hstep
        obtain ⟨report, hfree⟩ := word left id pushing
        have hshown : Claiming.shown remote baseSha s (.push p pushed created) =
            pushMarks baseSha p id created := by
          simp only [Claiming.shown, pushing]
          rfl
        rw [hshown]
        exact inv.push pushing report hfree
      · cases hstep
  | other branch sha =>
      obtain rfl := Option.some.inj hstep
      exact inv.other branch sha

lemma ClaimsInv.of_run
    (run : Run (Claiming.step remote baseSha) Claiming.GitKeepsItsWord
      (Claiming.shown remote baseSha) s h t) (begins : s.Begins) : ClaimsInv baseSha h t := by
  refine run.history_invariant (fun h s act t inv word hstep => inv.step word hstep) ?_
  refine ⟨fun creation h => (nomatch h), List.nodup_nil, ?_, fun p id h => (nomatch h)⟩
  intro p
  rw [begins p]
  exact ⟨rfl, rfl, rfl⟩

lemma Claimed.bounded {phase : ClaimPhase} (claimed : Claimed baseSha h p phase) :
    (listingsOf h p).length ≤ claimAttempts ∧
      (pushesOf h p).length ≤ (listingsOf h p).length := by
  cases phase with
  | listing left =>
      obtain ⟨hlistings, hpushes, -⟩ := claimed
      omega
  | pushing left id =>
      obtain ⟨hlistings, hpushes, -⟩ := claimed
      omega
  | returned result => exact ⟨claimed.1, claimed.2.1⟩

variable (remote baseSha) in
lemma Claiming.step_list {left : ℕ} (hphase : s.claim p = .listing left) (listed : GitAnswer) :
    Claiming.step remote baseSha s (.list p listed) =
      some { s with claim := Function.update s.claim p (.afterListing remote left listed) } := by
  simp only [Claiming.step, hphase]

variable (remote baseSha) in
lemma Claiming.step_push {left id : ℕ} (hphase : s.claim p = .pushing left id) (pushed : GitAnswer)
    (created : Bool) : Claiming.step remote baseSha s (.push p pushed created) =
      some
        { branches :=
            if created then Function.update s.branches (branchName id) (some (baseSha p))
            else s.branches
          claim := Function.update s.claim p (.afterPush remote left id pushed) } := by
  simp only [Claiming.step, hphase]

/-- A process that has not returned goes on, whatever git answers. -/
lemma Claiming.goes_on (s : Claiming P) (p : P) :
    (∃ result, s.claim p = .returned result) ∨
      (∀ listed, (Claiming.step remote baseSha s (.list p listed)).isSome) ∨
      ∀ pushed created, (Claiming.step remote baseSha s (.push p pushed created)).isSome := by
  cases hphase : s.claim p with
  | listing left => exact .inr (.inl fun listed => by simp [Claiming.step, hphase])
  | pushing left id => exact .inr (.inr fun pushed created => by simp [Claiming.step, hphase])
  | returned result => exact .inl ⟨result, rfl⟩

/-- **Claims never collide.**  However the listings and pushes of any number of claims on one
remote interleave with each other and with whatever else is pushed to it, an id is returned to one
claim, whose own push created its branch at its base and which is past every job branch that its
last listing showed and that there was when it was made; a claim that fails has created nothing;
and a claim makes at most 16 attempts, none with an id past `u64::MAX`. -/
theorem claims_never_collide
    (run : Run (Claiming.step remote baseSha) Claiming.GitKeepsItsWord
      (Claiming.shown remote baseSha) s h t) (begins : s.Begins) :
    (∀ p id, t.claim p = .returned (.ok id) →
        creationsOf h p = [(some p, branchName id, baseSha p)] ∧
        (∀ creation ∈ creations h, creation.2.1 = branchName id →
          creation = (some p, branchName id, baseSha p)) ∧
        ∃ there names, (listingsOf h p).getLast? = some (there, .ok names) ∧
          ∀ j ≤ u64Max, branchName j ∈ names ∨ there (branchName j) ≠ none → j < id) ∧
      (∀ p q id, t.claim p = .returned (.ok id) → t.claim q = .returned (.ok id) → p = q) ∧
      (∀ p e, t.claim p = .returned (.error e) → creationsOf h p = []) ∧
      (∀ p, (listingsOf h p).length ≤ claimAttempts ∧ (pushesOf h p).length ≤ claimAttempts ∧
        ∀ id ∈ pushesOf h p, id ≤ u64Max) ∧
      ∀ p, (∃ result, t.claim p = .returned result) ∨
        (∀ listed, (Claiming.step remote baseSha t (.list p listed)).isSome) ∨
        ∀ pushed created, (Claiming.step remote baseSha t (.push p pushed created)).isSome := by
  have inv := ClaimsInv.of_run run begins
  have hown : ∀ p id, t.claim p = .returned (.ok id) →
      (some p, branchName id, baseSha p) ∈ creations h := by
    intro p id hp
    obtain ⟨-, -, hcreations, -⟩ := hp ▸ inv.claimed p
    have hmem : (some p, branchName id, baseSha p) ∈ creationsOf h p := by simp [hcreations]
    exact (List.mem_filter.mp hmem).1
  refine ⟨?_, ?_, ?_, ?_, fun p => t.goes_on p⟩
  · intro p id hp
    obtain ⟨-, -, hcreations, -, hpast⟩ := hp ▸ inv.claimed p
    refine ⟨hcreations, ?_, hpast⟩
    intro creation hcreation hbranch
    exact List.inj_on_of_nodup_map inv.once hcreation (hown p id hp) hbranch
  · intro p q id hp hq
    have hsame := List.inj_on_of_nodup_map inv.once (hown p id hp) (hown q id hq) rfl
    simp only [Prod.mk.injEq, Option.some.injEq] at hsame
    exact hsame.1
  · intro p e hp
    obtain ⟨-, -, hcreations⟩ := hp ▸ inv.claimed p
    exact hcreations
  · intro p
    obtain ⟨hlistings, hpushes⟩ := (inv.claimed p).bounded
    exact ⟨hlistings, hpushes.trans hlistings, inv.pushed p⟩

/-- Two processes about to claim on a remote without job branches. -/
def racers : Claiming Bool := ⟨fun _ => none, fun _ => .listing (claimAttempts - 1)⟩

/-- The listing of a remote that has these branches. -/
def listingOf (branches : List String) : GitAnswer :=
  .ok ⟨0, listingText (branches.map fun branch => ("c0de", "refs/heads/" ++ branch)), ""⟩

/-- git's answer to a push to a job's branch, with this flag and summary. -/
def pushAnswer (flag branch summary : String) : GitAnswer :=
  .ok ⟨0, s!"To origin\n{flag}\tc0de:refs/heads/{branch}\t{summary}\nDone\n", ""⟩

/-- One more listing, of the branches there are. -/
lemma Claiming.run_list {branches : List String} {listed : GitAnswer} {left : ℕ}
    (run : Run (Claiming.step remote baseSha) Claiming.GitKeepsItsWord
      (Claiming.shown remote baseSha) s h t) (p : P) (hphase : t.claim p = .listing left)
    (hlisted : remoteBranchesMatching remote listed = .ok branches)
    (report : ListingReport t.branches listed) :
    Run (Claiming.step remote baseSha) Claiming.GitKeepsItsWord
      (Claiming.shown remote baseSha) s (h ++ [.listed p t.branches (.ok branches)])
      { t with claim := Function.update t.claim p (.afterListing remote left listed) } := by
  rw [← hlisted]
  have word : t.GitKeepsItsWord (.list p listed) := report
  exact run.snoc word (Claiming.step_list remote baseSha hphase listed)

/-- One more push, reported as it went. -/
lemma Claiming.run_push {pushed : GitAnswer} {created : Bool} {left id : ℕ}
    (run : Run (Claiming.step remote baseSha) Claiming.GitKeepsItsWord
      (Claiming.shown remote baseSha) s h t) (p : P) (hphase : t.claim p = .pushing left id)
    (report : PushReport ("refs/heads/" ++ branchName id) created pushed)
    (hfree : created = true → t.branches (branchName id) = none) :
    Run (Claiming.step remote baseSha) Claiming.GitKeepsItsWord
      (Claiming.shown remote baseSha) s (h ++ pushMarks baseSha p id created)
      { branches :=
          if created then Function.update t.branches (branchName id) (some (baseSha p))
          else t.branches
        claim := Function.update t.claim p (.afterPush remote left id pushed) } := by
  have hshown : Claiming.shown remote baseSha t (.push p pushed created) =
      pushMarks baseSha p id created := by
    simp only [Claiming.shown, hphase]
    rfl
  rw [← hshown]
  refine run.snoc ?_ (Claiming.step_push remote baseSha hphase pushed created)
  intro left' id' hphase'
  rw [hphase] at hphase'
  cases hphase'
  exact ⟨report, hfree⟩

/-- Both list before either pushes: one wins, and the other claims the next id. -/
theorem claims_never_collide_two : ∃ h t,
    Run (Claiming.step "origin" fun _ : Bool => "c0de") Claiming.GitKeepsItsWord
      (Claiming.shown "origin" fun _ => "c0de") racers h t ∧
      t.claim true = .returned (.ok 1) ∧ t.claim false = .returned (.ok 2) ∧
      creationsOf h true = [(some true, "al/job-1", "c0de")] ∧
      creationsOf h false = [(some false, "al/job-2", "c0de")] := by
  have hnone : remoteBranchesMatching "origin" (listingOf []) = .ok [] := by decide +kernel
  have hfirst : remoteBranchesMatching "origin" (listingOf ["al/job-1"]) = .ok ["al/job-1"] := by
    decide +kernel
  have hcreated : PushReport ("refs/heads/" ++ branchName 1) true
      (pushAnswer "*" "al/job-1" "[new branch]") :=
    .reported _ ["To origin"] ["Done"] "*" "c0de" "[new branch]" (by decide +kernel)
      (by decide +kernel) (by decide +kernel) (by decide +kernel)
  have hstale : PushReport ("refs/heads/" ++ branchName 1) false
      (pushAnswer "!" "al/job-1" "[rejected] (stale info)") :=
    .reported _ ["To origin"] ["Done"] "!" "c0de" "[rejected] (stale info)" (by decide +kernel)
      (by decide +kernel) (by decide +kernel) (by decide +kernel)
  have hsecond : PushReport ("refs/heads/" ++ branchName 2) true
      (pushAnswer "*" "al/job-2" "[new branch]") :=
    .reported _ ["To origin"] ["Done"] "*" "c0de" "[new branch]" (by decide +kernel)
      (by decide +kernel) (by decide +kernel) (by decide +kernel)
  have hempty : ListingReport racers.branches (listingOf []) :=
    .listed [] "" (by simp) (by simp) (by simp [racers])
  have listed := Claiming.run_list (Claiming.run_list
    (.nil racers : Run (Claiming.step "origin" fun _ => "c0de") _ _ _ _ _)
    true rfl hnone hempty) false rfl hnone hempty
  have won := Claiming.run_push listed true (by decide +kernel : _ = ClaimPhase.pushing 15 1)
    hcreated fun _ => rfl
  have lost := Claiming.run_push won false (by decide +kernel : _ = ClaimPhase.pushing 15 1)
    hstale nofun
  have hthere : ListingReport
      (Function.update (fun _ => none) (branchName 1) (some "c0de")) (listingOf ["al/job-1"]) := by
    have hname : branchName 1 = "al/job-1" := by decide +kernel
    rw [hname]
    refine .listed [("c0de", "refs/heads/al/job-1")] "" ?_ ?_ ?_
    · intro line hline
      rw [List.mem_singleton.mp hline]
      exact ⟨by decide +kernel, by decide +kernel, by decide +kernel, by decide +kernel⟩
    · intro line hline
      rw [List.mem_singleton.mp hline]
      exact ⟨"al/job-1", rfl, rfl⟩
    · intro branch sha _ hbranch
      rw [Function.update_apply] at hbranch
      split_ifs at hbranch with hjob
      obtain rfl := Option.some.inj hbranch
      rw [hjob]
      exact List.mem_singleton_self _
  have again := Claiming.run_list lost false (by decide +kernel : _ = ClaimPhase.listing 14)
    hfirst hthere
  have done := Claiming.run_push again false (by decide +kernel : _ = ClaimPhase.pushing 14 2)
    hsecond fun _ => by decide +kernel
  refine ⟨_, _, done, by decide +kernel, by decide +kernel, ?_⟩
  obtain ⟨returned, -⟩ := claims_never_collide done fun _ => rfl
  exact ⟨(returned true 1 (by decide +kernel)).1, (returned false 2 (by decide +kernel)).1⟩

/-! ### A claim by itself -/

/-- What a process comes to by itself from a phase of its claim. -/
def Claiming.Returns (remote : String) (baseSha : P → String) (p : P) (phase : ClaimPhase)
    (result : Except String ℕ) : Prop :=
  ∀ s : Claiming P, s.claim p = phase → ∃ acts t,
    exec (Claiming.step remote baseSha) s acts = some t ∧ t.claim p = .returned result

lemma Claiming.returns_claimOnce {attempt : Attempt} {left : ℕ}
    {lost : Except String ℕ × List String}
    (hlost : Claiming.Returns remote baseSha p (.afterLoss remote left) lost.1) :
    Claiming.Returns remote baseSha p (.listing left) (claimOnce remote attempt lost).1 := by
  intro s hphase
  have hlist := Claiming.step_list remote baseSha hphase attempt.listed
  unfold claimOnce
  cases hid : nextId remote attempt.listed with
  | error e =>
      refine ⟨[.list p attempt.listed], _, by rw [exec, hlist]; rfl, ?_⟩
      simp [ClaimPhase.afterListing, hid]
  | ok id =>
      have hpushing : ({ s with
          claim := Function.update s.claim p (.afterListing remote left attempt.listed) } :
            Claiming P).claim p = .pushing left id := by
        simp [ClaimPhase.afterListing, hid]
      have hpush := Claiming.step_push remote baseSha hpushing
        attempt.pushed attempt.created
      cases hwon : createBranchIfAbsent remote (branchName id) attempt.pushed with
      | error e =>
          refine ⟨[.list p attempt.listed, .push p attempt.pushed attempt.created], _,
            by rw [exec, hlist, Option.bind_some, exec, hpush]; rfl, ?_⟩
          simp [ClaimPhase.afterPush, hwon]
      | ok won =>
          cases won with
          | true =>
              refine ⟨[.list p attempt.listed, .push p attempt.pushed attempt.created], _,
                by rw [exec, hlist, Option.bind_some, exec, hpush]; rfl, ?_⟩
              simp [ClaimPhase.afterPush, hwon]
          | false =>
              obtain ⟨acts, t, hacts, hreturned⟩ := hlost
                { branches :=
                    if attempt.created then
                      Function.update s.branches (branchName id) (some (baseSha p))
                    else s.branches
                  claim := Function.update
                    (Function.update s.claim p (.afterListing remote left attempt.listed)) p
                    (.afterPush remote left id attempt.pushed) }
                (by simp [ClaimPhase.afterPush, hwon])
              refine ⟨.list p attempt.listed :: .push p attempt.pushed attempt.created :: acts, t,
                ?_, by simpa [hwon] using hreturned⟩
              rw [exec, hlist, Option.bind_some, exec, hpush, Option.bind_some]
              exact hacts

/-- `claimFrom` is what a process comes to when git gives it those answers. -/
theorem Claiming.returns_claimFrom (git : ℕ → Attempt) (left : ℕ) :
    Claiming.Returns remote baseSha p (.listing left) (claimFrom remote git left).1 := by
  induction left with
  | zero =>
      refine Claiming.returns_claimOnce ?_
      intro s hphase
      exact ⟨[], s, rfl, hphase⟩
  | succ left ih => exact Claiming.returns_claimOnce ih

end Racing

end AssemblyLine
