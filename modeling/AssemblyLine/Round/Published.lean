import AssemblyLine.Round.InClone

/-!
# What a round leaves on the remote

A round commits and pushes what its agent left before it says anything of it.  Here its calls are
answered by a clone and a remote whose `git` keeps its word, while others push to the remote and the
agent does to the clone's files, commits and branches what it likes.  The clone is the agent's to
configure too: a `pushurl` or a hook it leaves there, or a process that goes on working in the
clone, can have the round's own `git` commands do anything.  Of such a clone nothing is relied on
but that the remote goes forward; that the agent leaves none is a hypothesis of the result, and what
`verify` leaves is not.

`passed_work_is_on_the_remote` is what follows wherever the round is cut off or returns: a
`RoundCommitted` names a commit that holds what the agent left and is on the job's branch; a
`RoundPassed` says that what the agent left is on the remote.
-/

namespace AssemblyLine

/-! ## Commits -/

/-- What a commit's id stands for: the tree it holds, and the commits in its history. -/
structure History (Tree : Type) where
  tree : String → Tree
  /-- The first has the second in its history. -/
  reaches : String → String → Prop
  refl : ∀ c, reaches c c
  trans : ∀ {a b c}, reaches a b → reaches b c → reaches a c

/-- What a branch has been at, newest first, only ever went forward. -/
def History.Forward {Tree : Type} (history : History Tree) (reflog : List String) : Prop :=
  reflog.Pairwise history.reaches

/-- A round's clone. -/
structure RoundClone (Tree : Type) where
  /-- What is in the working tree, as `git add -A` stages it. -/
  work : Tree
  staged : Tree
  /-- The commit that is checked out. -/
  head : String
  /-- Its configuration, hooks and replaced objects are as the round made them, and no process that
  a command left is at work in it. -/
  asMade : Bool
  /-- What the last `exec::run_command` left in the working tree.  Nothing reads it. -/
  left : Tree

/-- A round's clone, the remote it publishes to, and the frames it has appended. -/
structure RoundState (Tree : Type) where
  clone : RoundClone Tree
  /-- The commits that each branch of the remote has been at, newest first. -/
  reflog : String → List String
  frames : List AppendCall

section Remote

variable {Tree : Type} (history : History Tree)

/-- The remote's branches went forward, or stayed where they were. -/
structure Advances (s t : RoundState Tree) : Prop where
  grows : ∀ branch, s.reflog branch <:+ t.reflog branch
  forward : ∀ branch, history.Forward (s.reflog branch) → history.Forward (t.reflog branch)

/-- What others do meanwhile: they push to the remote, without force. -/
structure OthersPush (s t : RoundState Tree) : Prop extends Advances history s t where
  /-- Of the clone they know nothing; a process that was left in it does. -/
  clone : s.clone.asMade = true → t.clone = s.clone
  left : t.clone.left = s.clone.left
  frames : t.frames = s.frames

/-- The remote after a push of what is checked out. -/
def RoundState.push (s : RoundState Tree) (branch : String) : RoundState Tree :=
  { s with reflog := fun b => if b = branch then s.clone.head :: s.reflog b else s.reflog b }

/-- The command that `git` is asked for, after its options. -/
def gitVerb : List String → Option String
  | "-c" :: _ :: args => gitVerb args
  | args => args.head?

/-- What is relied on of `git` and of the commands of a round.  What `git` does is relied on in a
clone that is as it was made; of any clone, that what reaches the remote from it is pushed there
without force. -/
structure GitServes (acts : RoundActs (RoundState Tree)) : Prop where
  advances : ∀ c given s answer t, acts c given s answer t → Advances history s t
  /-- Only a command makes anything else of the clone. -/
  keeps : ∀ c given s answer t, ¬ c.RunsACommand → acts c given s answer t →
    s.clone.asMade = true → t.clone.asMade = true
  /-- After a push that succeeds, the branch is at what is checked out. -/
  pushes : ∀ remote branch given s (answer : GitAnswer) t,
    acts (.git (InClone.pushArgs remote branch)) given s answer t → s.clone.asMade = true →
      t.clone = s.clone ∧ ∀ operation text, answer.expectingSuccess operation = .ok text →
        (t.reflog branch).head? = some s.clone.head
  looks : ∀ args given s (answer : GitAnswer) t,
    gitVerb args ∈ [some "rev-parse", some "diff", some "rev-list"] →
      acts (.git args) given s answer t → s.clone.asMade = true → t.clone = s.clone
  /-- `rev-parse HEAD` prints what is checked out. -/
  prints : ∀ given s (answer : GitAnswer) t, acts (.git ["rev-parse", "HEAD"]) given s answer t →
    s.clone.asMade = true →
      ∀ operation sha, answer.expectingSuccess operation = .ok sha → sha = s.clone.head
  stages : ∀ given s (answer : GitAnswer) t, acts (.git ["add", "-A"]) given s answer t →
    s.clone.asMade = true → ∀ operation text, answer.expectingSuccess operation = .ok text →
      t.clone = { s.clone with staged := s.clone.work }
  /-- `diff --cached --quiet` exits 0 when nothing is staged that is not committed. -/
  compares : ∀ given s out t, acts (.git ["diff", "--cached", "--quiet"]) given s (.ok out) t →
    s.clone.asMade = true → out.exitCode = 0 → s.clone.staged = history.tree s.clone.head
  /-- `commit` commits what is staged. -/
  commits : ∀ message given s (answer : GitAnswer) t,
    acts (.git ["commit", "--no-verify", "-m", message]) given s answer t →
      s.clone.asMade = true → ∀ operation text, answer.expectingSuccess operation = .ok text →
        history.tree t.clone.head = s.clone.staged
  /-- `rev-list --count` counts the commits that are checked out and not in the other's history. -/
  counts : ∀ commit since given s (answer : GitAnswer) t, commit = "HEAD" →
    acts (.git ["rev-list", "--count", s!"{since}..{commit}"]) given s answer t →
      s.clone.asMade = true → ∀ operation count, answer.expectingSuccess operation = .ok count →
        (count = "0" ↔ history.reaches since s.clone.head)
  sleeps : ∀ wait given s answer t, acts (.sleep wait) given s answer t →
    s.clone.asMade = true → t.clone = s.clone
  /-- What an agent leaves is what is in the working tree when it ends. -/
  leaves : ∀ spec limit given s outcome t, acts (.runCommand spec limit) given s outcome t →
    t.clone.left = t.clone.work
  left : ∀ c given s answer t, (∀ spec limit, c ≠ .runCommand spec limit) →
    acts c given s answer t → t.clone.left = s.clone.left

/-- The agent, and what provisions its tools, configures nothing in a clone that is as it was made,
and leaves nothing at work in it. -/
def AgentKeepsSetup (acts : RoundActs (RoundState Tree)) : Prop :=
  ∀ spec limit given s outcome t, acts (.runCommand spec limit) given s outcome t →
    s.clone.asMade = true → t.clone.asMade = true

end Remote

/-! ## What a round may say -/

section Saying

variable {Tree : Type} (history : History Tree) (payload : RoundPayload)

/-- A commit is in the history of what a branch of the remote is at. -/
def OnBranch (branch commit : String) (s : RoundState Tree) : Prop :=
  ∃ tip, (s.reflog branch).head? = some tip ∧ history.reaches tip commit

/-- What the agent left is on the remote: it is the tree of a commit on the job's branch, or in the
history of the commit the round started from. -/
def Saved (s : RoundState Tree) : Prop :=
  ∃ commit, history.tree commit = s.clone.left ∧
    (OnBranch history payload.branch commit s ∨ history.reaches payload.start.sha commit)

/-- What is true where a round says this. -/
def Truthful (s : RoundState Tree) : EventKind → Prop
  | .roundCommitted sha _ _ _ =>
    history.tree sha = s.clone.left ∧ OnBranch history payload.branch sha s ∧
      ¬ history.reaches payload.start.sha sha
  | .branchPushed branch remote => branch = payload.branch ∧ remote = payload.remoteName
  | .roundPassed => Saved history payload s
  | _ => True

/-- The job's branch only went forward, and all that was said is true. -/
structure Honest (s : RoundState Tree) : Prop where
  forward : history.Forward (s.reflog payload.branch)
  truthful : ∀ e ∈ eventsOf s.frames, Truthful history payload s e.kind

end Saying

section Moves

variable {Tree : Type} {history : History Tree} {payload : RoundPayload} {s t : RoundState Tree}
  {branch commit : String}

@[refl] lemma Advances.refl (s : RoundState Tree) : Advances history s s :=
  ⟨fun _ => List.suffix_rfl, fun _ h => h⟩

lemma Advances.of_reflog (h : t.reflog = s.reflog) : Advances history s t :=
  ⟨fun branch => by rw [h], fun branch hforward => by rwa [h]⟩

/-- A push goes forward. -/
lemma Advances.push (h : ∀ tip ∈ (s.reflog branch).head?, history.reaches s.clone.head tip) :
    Advances history s (s.push branch) := by
  refine ⟨fun b => ?_, fun b hforward => ?_⟩
  · unfold RoundState.push
    dsimp only
    split
    · exact List.suffix_cons _ _
    · exact List.suffix_rfl
  · unfold RoundState.push
    dsimp only
    split
    · rename_i hb
      subst hb
      refine List.pairwise_cons.mpr ⟨fun older holder => ?_, hforward⟩
      cases hlog : s.reflog b with
      | nil =>
          rw [hlog] at holder
          cases holder
      | cons tip rest =>
          rw [hlog] at holder hforward h
          have htip : history.reaches s.clone.head tip := h tip rfl
          rcases List.mem_cons.mp holder with rfl | hrest
          · exact htip
          · exact history.trans htip (List.rel_of_pairwise_cons hforward hrest)
    · exact hforward

/-- A branch that goes forward keeps its commits. -/
lemma OnBranch.advance (h : OnBranch history branch commit s) (hadvances : Advances history s t)
    (hforward : history.Forward (s.reflog branch)) : OnBranch history branch commit t := by
  obtain ⟨tip, htip, hreaches⟩ := h
  obtain ⟨more, hmore⟩ := hadvances.grows branch
  have hlater := hadvances.forward branch hforward
  obtain ⟨rest, hrest⟩ : ∃ rest, s.reflog branch = tip :: rest := List.head?_eq_some_iff.mp htip
  cases more with
  | nil =>
      rw [List.nil_append] at hmore
      exact ⟨tip, by rw [← hmore, htip], hreaches⟩
  | cons newest more =>
      rw [← hmore] at hlater
      refine ⟨newest, by rw [← hmore]; rfl, history.trans ?_ hreaches⟩
      refine List.rel_of_pairwise_cons hlater (List.mem_append_right _ ?_)
      rw [hrest]
      exact List.mem_cons_self

lemma Saved.advance (h : Saved history payload s) (hadvances : Advances history s t)
    (hforward : history.Forward (s.reflog payload.branch)) (hleft : t.clone.left = s.clone.left) :
    Saved history payload t := by
  obtain ⟨commit, htree, hwhere⟩ := h
  refine ⟨commit, by rw [htree, hleft], ?_⟩
  exact hwhere.imp_left fun hbranch => hbranch.advance hadvances hforward

/-- What was true stays true while the branch goes forward and the agent does not run. -/
lemma Truthful.advance {kind : EventKind} (h : Truthful history payload s kind)
    (hadvances : Advances history s t) (hforward : history.Forward (s.reflog payload.branch))
    (hleft : t.clone.left = s.clone.left) : Truthful history payload t kind := by
  cases kind with
  | roundCommitted sha files insertions deletions =>
      obtain ⟨htree, hbranch, hnew⟩ := h
      exact ⟨by rw [htree, hleft], hbranch.advance hadvances hforward, hnew⟩
  | branchPushed branch remote => exact h
  | roundPassed => exact Saved.advance h hadvances hforward hleft
  | _ => trivial

lemma Honest.advance (h : Honest history payload s) (hadvances : Advances history s t)
    (hleft : t.clone.left = s.clone.left) (hevents : eventsOf t.frames = eventsOf s.frames) :
    Honest history payload t := by
  refine ⟨hadvances.forward _ h.forward, fun e he => ?_⟩
  rw [hevents] at he
  exact (h.truthful e he).advance hadvances h.forward hleft

end Moves

/-! ## Before a round says anything -/

section Silent

open Calls InClone

variable {Tree α β : Type} {history : History Tree} {payload : RoundPayload}
  {acts : RoundActs (RoundState Tree)} {F : RoundClone Tree → Prop} {s t : RoundState Tree}

/-- No event has been appended. -/
structure Unsaid (history : History Tree) (payload : RoundPayload) (s : RoundState Tree) :
    Prop where
  forward : history.Forward (s.reflog payload.branch)
  events : eventsOf s.frames = []

/-- No event has been appended, and the clone is as it was made, and like this. -/
structure Silent (history : History Tree) (payload : RoundPayload) (F : RoundClone Tree → Prop)
    (s : RoundState Tree) : Prop extends Unsaid history payload s where
  asMade : s.clone.asMade = true
  clone : F s.clone

lemma Unsaid.honest (h : Unsaid history payload s) : Honest history payload s := by
  refine ⟨h.forward, fun e he => ?_⟩
  rw [h.events] at he
  cases he

lemma Unsaid.advance (h : Unsaid history payload s) (hadvances : Advances history s t)
    (hevents : eventsOf t.frames = eventsOf s.frames) : Unsaid history payload t :=
  ⟨hadvances.forward _ h.forward, by rw [hevents, h.events]⟩

lemma Unsaid.drift (h : Unsaid history payload s) (hdrift : OthersPush history s t) :
    Unsaid history payload t :=
  h.advance hdrift.toAdvances (by rw [hdrift.frames])

lemma Silent.drift (h : Silent history payload F s) (hdrift : OthersPush history s t) :
    Silent history payload F t := by
  have hclone : t.clone = s.clone := hdrift.clone h.asMade
  exact ⟨h.toUnsaid.drift hdrift, by rw [hclone, h.asMade], by rw [hclone]; exact h.clone⟩

lemma Silent.mono {G : RoundClone Tree → Prop} (h : Silent history payload F s)
    (hFG : F s.clone → G s.clone) : Silent history payload G s :=
  ⟨h.toUnsaid, h.asMade, hFG h.clone⟩

/-- What holds where a program returns: after an error nothing is known of the clone. -/
def Ends (history : History Tree) (payload : RoundPayload) (G : α → RoundClone Tree → Prop)
    (out : Except String α) (s : RoundState Tree) : Prop :=
  match out with
  | .ok a => Silent history payload (G a) s
  | .error _ => Silent history payload (fun _ => True) s

/-- What holds of a round's program in a world of clones and a remote. -/
abbrev Holds (history : History Tree) (payload : RoundPayload) (acts : RoundActs (RoundState Tree))
    (pre : RoundState Tree → Prop) (p : RoundCalls α) (post : α → RoundState Tree → Prop) : Prop :=
  Triple acts (OthersPush history) (Honest history payload) pre p post

lemma holds_done {a : α} {post : α → RoundState Tree → Prop}
    (h : ∀ s, Silent history payload F s → post a s) :
    Holds history payload acts (Silent history payload F) (.done a) post :=
  .done (fun _ _ hs drifted => hs.drift drifted) fun s hs => ⟨hs.toUnsaid.honest, h s hs⟩

lemma ends_tryBind {pre : RoundState Tree → Prop} {p : RoundCalls (Except String α)}
    {f : α → RoundCalls (Except String β)} {G : α → RoundClone Tree → Prop}
    {H : β → RoundClone Tree → Prop}
    (first : Holds history payload acts pre p (Ends history payload G))
    (second : ∀ a, Holds history payload acts (Silent history payload (G a)) (f a)
      (Ends history payload H)) :
    Holds history payload acts pre (p.tryBind f) (Ends history payload H) := by
  refine first.bind ?_
  rintro (e | a)
  · exact holds_done (F := fun _ => True) fun s hs => hs
  · exact second a

variable (serves : GitServes history acts)
  (keeps : KeepsFrames RoundState.frames acts (OthersPush history))
include serves keeps

lemma holds_git {args : List String} {next : GitAnswer → RoundCalls α}
    {G : GitAnswer → RoundClone Tree → Prop} {post : α → RoundState Tree → Prop}
    (acted : ∀ s answer t, F s.clone → s.clone.asMade = true → acts (.git args) () s answer t →
      G answer t.clone)
    (rest : ∀ answer, Holds history payload acts (Silent history payload (G answer)) (next answer)
      post) :
    Holds history payload acts (Silent history payload F) (.call (.git args) () next) post := by
  refine .call (fun _ _ hs drifted => hs.drift drifted) (fun _ hs => hs.toUnsaid.honest) ?_ rest
  intro s answer t hs hacted
  refine ⟨hs.toUnsaid.advance (serves.advances _ () s answer t hacted) ?_, ?_, ?_⟩
  · rw [keeps.quiet _ () s answer t trivial hacted]
  · exact serves.keeps _ () s answer t id hacted hs.asMade
  · exact acted s answer t hs.clone hs.asMade hacted

lemma ends_expecting {args : List String} {operation : String}
    {G : String → RoundClone Tree → Prop}
    (acted : ∀ s answer t text, F s.clone → s.clone.asMade = true →
      acts (.git args) () s answer t → answer.expectingSuccess operation = .ok text →
        G text t.clone) :
    Holds history payload acts (Silent history payload F) (runExpectingSuccess args operation)
      (Ends history payload G) := by
  refine holds_git (G := fun answer c => ∀ text, answer.expectingSuccess operation = .ok text →
    G text c) serves keeps (fun s answer t hF hmade hacted text htext =>
      acted s answer t text hF hmade hacted htext) fun answer => ?_
  cases hanswer : answer.expectingSuccess operation with
  | error e => exact holds_done fun s hs => hs.mono fun _ => trivial
  | ok text => exact holds_done fun s hs => hs.mono fun hG => hG text rfl

/-- The agent's work is committed. -/
lemma ends_commitAll (message : String) :
    Holds history payload acts (Silent history payload fun c => c.left = c.work) (commitAll message)
      (Ends history payload fun _ c => history.tree c.head = c.left) := by
  refine ends_tryBind (ends_expecting (G := fun _ c => c.left = c.work ∧ c.staged = c.work)
    serves keeps ?_) fun _ => ?_
  · intro s answer t text hleft hmade hacted htext
    rw [serves.stages () s answer t hacted hmade _ text htext]
    exact ⟨hleft, rfl⟩
  refine ends_tryBind (G := fun (nothing : Bool) c => (c.left = c.work ∧ c.staged = c.work) ∧
    (nothing = true → c.staged = history.tree c.head)) ?_ fun nothing => ?_
  · refine holds_git (G := fun answer c => (c.left = c.work ∧ c.staged = c.work) ∧
      ∀ out, answer = .ok out → out.exitCode = 0 → c.staged = history.tree c.head)
      serves keeps ?_ fun answer => ?_
    · intro s answer t hclone hmade hacted
      rw [serves.looks _ () s answer t (by decide) hacted hmade]
      refine ⟨hclone, fun out hout hexit => ?_⟩
      rw [hout] at hacted
      exact serves.compares () s out t hacted hmade hexit
    · cases answer with
      | error e => exact holds_done fun s hs => hs.mono fun _ => trivial
      | ok out =>
          exact holds_done fun s hs => hs.mono fun hG =>
            ⟨hG.1, fun hnothing => hG.2 out rfl (of_decide_eq_true hnothing)⟩
  · cases nothing with
    | true =>
        refine holds_done fun s hs => hs.mono ?_
        rintro ⟨⟨hleft, hstaged⟩, hhead⟩
        rw [← hhead rfl, hstaged, hleft]
    | false =>
        refine ends_tryBind (ends_expecting (G := fun _ c => history.tree c.head = c.left)
          serves keeps ?_) fun _ => ?_
        · rintro s answer t text ⟨⟨hleft, hstaged⟩, -⟩ hmade hacted htext
          have hkept := serves.left _ () s answer t nofun hacted
          rw [serves.commits message () s answer t hacted hmade _ text htext, hstaged, hkept, hleft]
        · refine ends_tryBind (ends_expecting (G := fun _ c => history.tree c.head = c.left)
            serves keeps ?_) fun _ => holds_done fun s hs => hs
          intro s answer t text hhead hmade hacted htext
          rw [serves.looks _ () s answer t (by decide) hacted hmade]
          exact hhead

/-- The commit that a round ends on holds what the agent left; without one, what it left is in the
history of what the round started from. -/
lemma ends_commit {ws : RoundWorkspace} (message : String) :
    Holds history payload acts (Silent history payload fun c => c.left = c.work) (commit ws message)
      (Ends history payload fun made c => history.tree c.head = c.left ∧
        match made with
        | none => history.reaches ws.startedAt c.head
        | some sha => sha = c.head ∧ ¬ history.reaches ws.startedAt c.head) := by
  refine ends_tryBind (ends_commitAll serves keeps message) fun _ => ?_
  refine ends_tryBind (G := fun (ahead : Bool) c => history.tree c.head = c.left ∧
    (ahead = false ↔ history.reaches ws.startedAt c.head)) ?_ fun ahead => ?_
  · refine ends_tryBind (ends_expecting (G := fun count c => history.tree c.head = c.left ∧
      (count = "0" ↔ history.reaches ws.startedAt c.head)) serves keeps ?_) fun count => ?_
    · intro s answer t count hhead hmade hacted hcount
      rw [serves.looks _ () s answer t (by simp [gitVerb]) hacted hmade]
      exact ⟨hhead, serves.counts "HEAD" _ () s answer t rfl hacted hmade _ count hcount⟩
    · refine holds_done fun s hs => hs.mono fun hclone => ⟨hclone.1, ?_⟩
      rw [← hclone.2]
      simp
  · cases ahead with
    | false =>
        exact holds_done fun s hs => hs.mono fun hclone => ⟨hclone.1, hclone.2.mp rfl⟩
    | true =>
        refine ends_tryBind (ends_expecting (G := fun sha c => history.tree c.head = c.left ∧
          sha = c.head ∧ ¬ history.reaches ws.startedAt c.head) serves keeps ?_)
          fun sha => holds_done fun s hs => hs
        rintro s answer t sha ⟨hhead, hahead⟩ hmade hacted hsha
        rw [serves.looks _ () s answer t (by decide) hacted hmade]
        refine ⟨hhead, serves.prints () s answer t hacted hmade _ sha hsha, fun hreaches => ?_⟩
        cases hahead.mpr hreaches

omit serves keeps in
/-- Nothing has been said, and if the push went through the commit is on the branch. -/
lemma pushed_stable {sha : String} {P : Prop} : Stable (OthersPush history) fun s =>
    Silent history payload F s ∧ (P → OnBranch history payload.branch sha s) :=
  fun _ _ hs drifted =>
    ⟨hs.1.drift drifted, fun hP => (hs.2 hP).advance drifted.toAdvances hs.1.forward⟩

/-- A push keeps the clone, and leaves the branch where it was or at the commit. -/
lemma holds_pushHeadAs {ws : RoundWorkspace} {sha : String} (hbranch : ws.branch = payload.branch)
    (hF : ∀ c, F c → c.head = sha) :
    Holds history payload acts (Silent history payload F) (pushHeadAs cloneRemote ws.branch)
      fun out s => Silent history payload F s ∧
        (out = .ok () → OnBranch history payload.branch sha s) := by
  refine .call (Q := fun (answer : GitAnswer) t => Silent history payload F t ∧
    ((∃ text, answer.expectingSuccess s!"push {cloneRemote} {ws.branch}" = .ok text) →
      OnBranch history payload.branch sha t))
    (fun _ _ hs drifted => hs.drift drifted) (fun _ hs => hs.toUnsaid.honest) ?_ fun answer => ?_
  · intro s answer t hs hacted
    obtain ⟨hclone, hthere⟩ := serves.pushes _ _ () s answer t hacted hs.asMade
    refine ⟨⟨hs.toUnsaid.advance (serves.advances _ () s answer t hacted) ?_, ?_, ?_⟩, ?_⟩
    · rw [keeps.quiet _ () s answer t trivial hacted]
    · rw [hclone, hs.asMade]
    · rw [hclone]
      exact hs.clone
    · rintro ⟨text, htext⟩
      refine ⟨s.clone.head, ?_, ?_⟩
      · rw [← hbranch]
        exact hthere _ text htext
      · rw [hF s.clone hs.clone]
        exact history.refl sha
  · dsimp only
    cases hanswer : answer.expectingSuccess s!"push {cloneRemote} {ws.branch}" with
    | error e =>
        exact .done pushed_stable fun s hs => ⟨hs.1.toUnsaid.honest, hs.1, fun hok => by cases hok⟩
    | ok text =>
        exact .done pushed_stable fun s hs =>
          ⟨hs.1.toUnsaid.honest, hs.1, fun _ => hs.2 ⟨text, rfl⟩⟩

/-- A loop of pushes ends with the commit on the branch, or with an error. -/
lemma holds_publishFrom {ws : RoundWorkspace} {sha : String} (hbranch : ws.branch = payload.branch)
    (hF : ∀ c, F c → c.head = sha) (lastFailure : Option String) (waits : List ℕ) :
    Holds history payload acts (Silent history payload F) (publishFrom ws lastFailure waits)
      fun out s => Silent history payload F s ∧
        (out = .ok () → OnBranch history payload.branch sha s) := by
  induction waits generalizing lastFailure with
  | nil => exact holds_done fun s hs => ⟨hs, fun hok => by cases hok⟩
  | cons wait waits ih =>
      refine .call (Q := fun _ => Silent history payload F)
        (fun _ _ hs drifted => hs.drift drifted) (fun _ hs => hs.toUnsaid.honest) ?_ fun _ => ?_
      · intro s answer t hs hacted
        have hclone : t.clone = s.clone := serves.sleeps wait () s answer t hacted hs.asMade
        refine ⟨hs.toUnsaid.advance (serves.advances _ () s answer t hacted) ?_, ?_, ?_⟩
        · rw [keeps.quiet _ () s answer t trivial hacted]
        · rw [hclone, hs.asMade]
        · rw [hclone]
          exact hs.clone
      refine (holds_pushHeadAs serves keeps hbranch hF).bind ?_
      rintro (e | pushed)
      · exact (ih (some e)).weaken (fun s hs => hs.1) fun _ _ h => h
      · exact .done pushed_stable fun s hs => ⟨hs.1.toUnsaid.honest, hs⟩

end Silent

/-! ## What a round says -/

section Said

open Calls InClone

variable {Tree α : Type} {history : History Tree} {payload : RoundPayload}
  {acts : RoundActs (RoundState Tree)} {s t : RoundState Tree}

/-- What there is of the agent's work once it is preserved: all that will be said of it is true. -/
def Preserved (history : History Tree) (payload : RoundPayload)
    (out : Except String (Option AgentWork)) (s : RoundState Tree) : Prop :=
  Unsaid history payload s ∧ ∀ work, out = .ok work →
    (∀ kind ∈ workRecorded work, Truthful history payload s kind) ∧ Saved history payload s

lemma Preserved.advance {out : Except String (Option AgentWork)}
    (h : Preserved history payload out s) (hadvances : Advances history s t)
    (hleft : t.clone.left = s.clone.left) (hevents : eventsOf t.frames = eventsOf s.frames) :
    Preserved history payload out t := by
  obtain ⟨hunsaid, hwork⟩ := h
  refine ⟨hunsaid.advance hadvances hevents, ?_⟩
  intro work hout
  obtain ⟨hkinds, hsaved⟩ := hwork work hout
  exact ⟨fun kind hkind => (hkinds kind hkind).advance hadvances hunsaid.forward hleft,
    hsaved.advance hadvances hunsaid.forward hleft⟩

lemma preserved_stable (out : Except String (Option AgentWork)) :
    Stable (OthersPush history) (Preserved history payload out) :=
  fun _ _ hs drifted =>
    hs.advance drifted.toAdvances drifted.left (by rw [drifted.frames])

variable (serves : GitServes history acts)
  (keeps : KeepsFrames RoundState.frames acts (OthersPush history))
include serves keeps

lemma holds_agentWorkOnBranch {ws : RoundWorkspace}
    (hws : ws = ⟨payload.branch, payload.start.sha⟩) :
    Holds history payload acts (Silent history payload fun c => c.left = c.work)
      (InClone.agentWorkOnBranch payload ws) (Preserved history payload) := by
  have hfailed : ∀ {F : RoundClone Tree → Prop} e, Holds history payload acts
      (Silent history payload F) (.done (.error e) : RoundCalls (Except String (Option AgentWork)))
      (Preserved history payload) := fun e => holds_done fun s hs =>
    ⟨hs.toUnsaid, fun _ hok => by cases hok⟩
  refine (ends_commit serves keeps payload.commitMessage).bind ?_
  rintro (e | _ | sha)
  · exact hfailed e
  · refine holds_done (F := fun c => history.tree c.head = c.left ∧
      history.reaches ws.startedAt c.head) fun s hs => ⟨hs.toUnsaid, ?_⟩
    rintro work ⟨⟩
    refine ⟨nofun, s.clone.head, hs.clone.1, .inr ?_⟩
    have hreaches := hs.clone.2
    rw [hws] at hreaches
    exact hreaches
  let F : RoundClone Tree → Prop := fun c => history.tree c.head = c.left ∧
    sha = c.head ∧ ¬ history.reaches ws.startedAt c.head
  have hdiff : Holds history payload acts (Silent history payload F)
      (diffStatAgainst payload.start.sha) (Ends history payload fun _ => F) := by
    refine ends_tryBind (ends_expecting (G := fun _ => F) serves keeps ?_)
      fun _ => holds_done fun s hs => hs
    intro s answer t text hF hmade hacted _
    rw [serves.looks _ () s answer t (by simp [gitVerb]) hacted hmade]
    exact hF
  refine Triple.bind hdiff ?_
  rintro (e | stat)
  · exact hfailed e
  have hbranch : ws.branch = payload.branch := by rw [hws]
  refine Triple.bind (holds_publishFrom (F := F) serves keeps hbranch (fun c hF => hF.2.1.symm)
    none _) ?_
  rintro (e | pushed)
  · exact .done pushed_stable fun s hs =>
      ⟨hs.1.toUnsaid.honest, hs.1.toUnsaid, fun _ hok => by cases hok⟩
  · refine .done pushed_stable fun s hs => ⟨hs.1.toUnsaid.honest, hs.1.toUnsaid, ?_⟩
    rintro work ⟨⟩
    obtain ⟨htree, hhead, hnew⟩ := hs.1.clone
    have hon := hs.2 rfl
    rw [hws] at hnew
    rw [← hhead] at htree hnew
    refine ⟨?_, sha, htree, .inl hon⟩
    intro kind hkind
    simp only [workRecorded, List.mem_cons, List.not_mem_nil, or_false] at hkind
    rcases hkind with rfl | rfl
    · exact ⟨htree, hon, hnew⟩
    · exact ⟨hbranch, rfl⟩

omit serves keeps in
lemma eventsOf_append_lines (frames : List AppendCall) (lines : List String) :
    eventsOf (frames ++ lines.map .appendOutput) = eventsOf frames := by
  unfold eventsOf
  rw [List.filterMap_append, List.filterMap_map]
  simp

/-- A call that appends no event. -/
def RoundCall.SaysNothing : RoundCall → Prop
  | .append _ => False
  | _ => True

/-- A call that a round makes before it has work to say anything of. -/
def RoundCall.ComesFirst : RoundCall → Prop
  | .append _ | .runShell _ _ => False
  | _ => True

omit serves in
lemma events_of_saysNothing {c : RoundCall} {answer : RoundCall.Answer c} (hc : c.SaysNothing)
    (acted : acts c () s answer t) : eventsOf t.frames = eventsOf s.frames := by
  have hcommand : c.RunsACommand → eventsOf t.frames = eventsOf s.frames := by
    intro hruns
    obtain ⟨lines, hlines⟩ := keeps.commands c () s answer t hruns acted
    rw [hlines, eventsOf_append_lines]
  cases c with
  | append said => exact hc.elim
  | runCommand spec limit => exact hcommand trivial
  | runShell command limit => exact hcommand trivial
  | _ => rw [keeps.quiet _ () s answer t trivial acted]

/-- What comes first says nothing, and leaves the clone as it was made. -/
lemma Silent.comesFirst {F : RoundClone Tree → Prop} (setup : AgentKeepsSetup acts) {c : RoundCall}
    {answer : RoundCall.Answer c} (hs : Silent history payload F s) (hc : c.ComesFirst)
    (acted : acts c () s answer t) : Silent history payload (fun _ => True) t := by
  have hsays : c.SaysNothing := by
    cases c with
    | append said => exact hc.elim
    | _ => trivial
  have hkept : ¬ c.RunsACommand → t.clone.asMade = true := fun hruns =>
    serves.keeps c () s answer t hruns acted hs.asMade
  refine ⟨hs.toUnsaid.advance (serves.advances c () s answer t acted)
    (events_of_saysNothing keeps hsays acted), ?_, trivial⟩
  cases c with
  | runCommand spec limit => exact setup spec limit () s answer t acted hs.asMade
  | runShell command limit => exact hc.elim
  | _ => exact hkept id

lemma holds_silently (setup : AgentKeepsSetup acts) {p : RoundCalls α}
    (hall : p.All fun c _ => c.ComesFirst) :
    Holds history payload acts (Silent history payload fun _ => True) p
      fun _ => Silent history payload fun _ => True := by
  have hkept : Triple acts (OthersPush history) (Silent history payload fun _ => True)
      (Silent history payload fun _ => True) p fun _ => Silent history payload fun _ => True := by
    refine .all hall ?_ fun _ _ hs drifted => hs.drift drifted
    intro c given s answer t hc hs acted
    exact hs.comesFirst serves keeps setup hc acted
  intro s out t hs leads
  obtain ⟨halways, hpost⟩ := hkept s out t hs leads
  exact ⟨halways.toUnsaid.honest, hpost⟩

/-- What holds of a round's result: all that will be said of it is true. -/
def Recordable (history : History Tree) (payload : RoundPayload) (result : RoundResult)
    (s : RoundState Tree) : Prop :=
  (∀ kind ∈ (eventsForCompletion result).1, Truthful history payload s kind) ∧
    ((eventsForCompletion result).2 = .passed → Saved history payload s)

omit serves keeps in
/-- A result says of preserved work no more than is true. -/
lemma recordable_of_work {result : RoundResult}
    (hkinds : ∀ kind ∈ workRecorded result.work, Truthful history payload s kind)
    (hsaved : Saved history payload s) : Recordable history payload result s := by
  refine ⟨?_, fun _ => hsaved⟩
  obtain ⟨rejected, verdict, hevents, hrejected, hverdict⟩ := eventsForCompletion_parts result
  intro kind hkind
  rw [hevents, List.mem_append, List.mem_append, List.mem_singleton] at hkind
  rcases hkind with (hwork | hreason) | rfl
  · exact hkinds kind hwork
  · rcases hrejected with rfl | ⟨reason, rfl⟩
    · cases hreason
    · rw [List.mem_singleton.mp hreason]
      trivial
  · cases kind with
    | roundPassed => exact hsaved
    | roundFailed reason => trivial
    | _ => cases hverdict

omit serves keeps in
lemma comesFirst_provisionToolchain (payload : RoundPayload) :
    (provisionToolchain payload).All fun c _ => c.ComesFirst := by
  have hsteps : ∀ steps, (provisionFrom steps).All fun c _ => c.ComesFirst := by
    intro steps
    induction steps with
    | nil => trivial
    | cons args steps ih =>
        refine ⟨trivial, fun (left : ℕ) => ?_⟩
        dsimp only
        refine .tryBind ?_ fun outcome => .tryBind trivial fun _ => ih
        split
        · trivial
        · exact ⟨trivial, fun _ => trivial⟩
  unfold provisionToolchain
  split
  · exact hsteps _
  · trivial

lemma holds_resultInWorkspace (setup : AgentKeepsSetup acts) {ws : RoundWorkspace}
    (hws : ws = ⟨payload.branch, payload.start.sha⟩) :
    Holds history payload acts (Silent history payload fun _ => True)
      (InClone.resultInWorkspace payload ws) fun out s =>
        Unsaid history payload s ∧
          ∀ result, out = .ok result → Recordable history payload result s := by
  have hagent : Holds history payload acts (Silent history payload fun _ => True)
      (runCommand payload.command (commandLimit payload))
      fun _ => Silent history payload fun c => c.left = c.work := by
    refine .call (Q := fun _ => Silent history payload fun c => c.left = c.work)
      (fun _ _ hs drifted => hs.drift drifted) (fun _ hs => hs.toUnsaid.honest) ?_
        fun ran => holds_done fun s hs => hs
    intro s ran t hs acted
    have hfirst := hs.comesFirst (c := .runCommand payload.command (commandLimit payload)) serves
      keeps setup trivial acted
    exact ⟨hfirst.toUnsaid, hfirst.asMade, serves.leaves _ _ () s ran t acted⟩
  refine (holds_silently serves keeps setup (comesFirst_provisionToolchain payload)).bind ?_
  rintro (e | provisioned)
  · exact holds_done fun s hs => ⟨hs.toUnsaid, fun _ hok => by cases hok⟩
  refine hagent.bind fun ran => ?_
  refine (holds_agentWorkOnBranch serves keeps hws).bind fun preserved => ?_
  have hruled : Holds history payload acts (Preserved history payload preserved)
      (rulingOn payload (agentFailureReason ran)) fun _ => Preserved history payload preserved := by
    have hnothing : ∀ ruling : VerifyRuling,
        Holds history payload acts (Preserved history payload preserved) (.done ruling)
          fun _ => Preserved history payload preserved := fun ruling =>
      .done (preserved_stable preserved) fun s hs => ⟨hs.1.honest, hs⟩
    cases agentFailureReason ran with
    | some reason => exact hnothing _
    | none =>
        unfold rulingOn
        dsimp only
        cases payload.verify with
        | none => exact hnothing _
        | some command =>
            refine .call (Q := fun _ => Preserved history payload preserved)
              (preserved_stable preserved) (fun _ hs => hs.1.honest) ?_ fun outcome => hnothing _
            intro s outcome t hs acted
            exact hs.advance (serves.advances _ () s outcome t acted)
              (serves.left _ () s outcome t nofun acted)
              (events_of_saysNothing (c := .runShell command (commandLimit payload)) keeps
                trivial acted)
  refine hruled.bind fun ruling => .done (preserved_stable preserved) fun s hs => ?_
  refine ⟨hs.1.honest, hs.1, ?_⟩
  intro result hresult
  cases preserved with
  | error e => cases hresult
  | ok work =>
      obtain rfl := Except.ok.inj hresult
      obtain ⟨hkinds, hsaved⟩ := hs.2 work rfl
      refine recordable_of_work ?_ hsaved
      rw [work_roundResult]
      exact hkinds

/-- All that was said is true; and this much is saved, if the round is to say that it passed. -/
def StandsBehind (history : History Tree) (payload : RoundPayload) (passed : Prop)
    (s : RoundState Tree) : Prop :=
  Honest history payload s ∧ (passed → Saved history payload s)

omit serves keeps in
lemma StandsBehind.advance {passed : Prop} (h : StandsBehind history payload passed s)
    (hadvances : Advances history s t) (hleft : t.clone.left = s.clone.left)
    (hevents : eventsOf t.frames = eventsOf s.frames) : StandsBehind history payload passed t :=
  ⟨h.1.advance hadvances hleft hevents,
    fun hpassed => (h.2 hpassed).advance hadvances h.1.forward hleft⟩

omit serves keeps in
lemma standsBehind_stable (passed : Prop) :
    Stable (OthersPush history) (StandsBehind history payload passed) :=
  fun _ _ hs drifted =>
    hs.advance drifted.toAdvances drifted.left (by rw [drifted.frames])

/-- A frame that is true where it is appended. -/
lemma standsBehind_append {passed : Prop} {said : Appended} {written : Except String Unit}
    (hs : StandsBehind history payload passed s)
    (htrue : ∀ kind, said = .event kind → Truthful history payload s kind)
    (acted : acts (.append said) () s written t) :
    StandsBehind history payload passed t ∧ Advances history s t ∧ t.clone.left = s.clone.left := by
  have hadvances : Advances history s t := serves.advances (.append said) () s written t acted
  have hleft : t.clone.left = s.clone.left := serves.left (.append said) () s written t nofun acted
  refine ⟨⟨⟨hadvances.forward _ hs.1.forward, fun e he => ?_⟩, fun hpassed =>
    (hs.2 hpassed).advance hadvances hs.1.forward hleft⟩, hadvances, hleft⟩
  refine Truthful.advance ?_ hadvances hs.1.forward hleft
  cases written with
  | error failure =>
      rw [keeps.unwritten said () s failure t acted] at he
      exact hs.1.truthful e he
  | ok written =>
      obtain ⟨frame, hframe, hframes⟩ := keeps.appends said () s t acted
      rw [hframes, eventsOf, List.filterMap_append, List.mem_append] at he
      rcases he with he | he
      · exact hs.1.truthful e he
      · cases frame with
        | appendOutput line => cases he
        | appendEvent now kind =>
            rw [List.mem_singleton.mp he]
            exact htrue kind hframe.symm

lemma holds_appendEvents {passed : Prop} (kinds : List EventKind) :
    Holds history payload acts
      (fun s => StandsBehind history payload passed s ∧
        ∀ kind ∈ kinds, Truthful history payload s kind)
      (appendEvents kinds) fun _ => StandsBehind history payload passed := by
  have hstable : ∀ kinds : List EventKind, Stable (OthersPush history) fun s =>
      StandsBehind history payload passed s ∧ ∀ kind ∈ kinds, Truthful history payload s kind :=
    fun kinds s t hs drifted => ⟨standsBehind_stable passed s t hs.1 drifted, fun kind hkind =>
      (hs.2 kind hkind).advance drifted.toAdvances hs.1.1.forward drifted.left⟩
  induction kinds with
  | nil => exact .done (hstable []) fun s hs => ⟨hs.1.1, hs.1⟩
  | cons kind kinds ih =>
      refine .call (Q := fun _ s => StandsBehind history payload passed s ∧
        ∀ kind ∈ kinds, Truthful history payload s kind) (hstable _) (fun _ hs => hs.1.1) ?_ ?_
      · rintro s written t ⟨hs, hkinds⟩ acted
        obtain ⟨hstands, hadvances, hleft⟩ := standsBehind_append serves keeps hs (fun k hk => by
          rw [← Appended.event.inj hk]
          exact hkinds kind List.mem_cons_self) acted
        exact ⟨hstands, fun k hk => (hkinds k (List.mem_cons_of_mem _ hk)).advance hadvances
          hs.1.forward hleft⟩
      · rintro (e | written)
        · exact .done (hstable kinds) fun s hs => ⟨hs.1.1, hs.1⟩
        · exact ih

lemma holds_recordCompletion (result : RoundResult) :
    Holds history payload acts
      (fun s => Unsaid history payload s ∧ Recordable history payload result s)
      (recordCompletion result) fun out s => Honest history payload s ∧
        (out = .ok .passed → Saved history payload s) := by
  have happended : Holds history payload acts
      (fun s => StandsBehind history payload ((eventsForCompletion result).2 = .passed) s ∧
        ∀ kind ∈ (eventsForCompletion result).1, Truthful history payload s kind)
      (appendEvents (eventsForCompletion result).1)
      fun _ => StandsBehind history payload ((eventsForCompletion result).2 = .passed) :=
    holds_appendEvents serves keeps _
  refine (happended.weaken (fun s hs => ⟨⟨hs.1.honest, hs.2.2⟩, hs.2.1⟩) fun _ _ h => h).bind ?_
  rintro (e | written)
  · exact .done (standsBehind_stable _) fun s hs => ⟨hs.1, hs.1, fun hok => by cases hok⟩
  · exact .done (standsBehind_stable _) fun s hs =>
      ⟨hs.1, hs.1, fun hok => hs.2 (Except.ok.inj hok)⟩

lemma holds_runRoundIn (setup : AgentKeepsSetup acts) {ws : RoundWorkspace}
    (hws : ws = ⟨payload.branch, payload.start.sha⟩) :
    Holds history payload acts (Silent history payload fun _ => True)
      (InClone.runRoundIn payload ws) fun out s => Honest history payload s ∧
        (out = .ok .passed → Saved history payload s) := by
  refine (holds_resultInWorkspace serves keeps setup hws).bind ?_
  rintro (e | result)
  · refine (holds_recordCompletion serves keeps _).weaken (fun s hs => ⟨hs.1, ?_, nofun⟩)
      fun _ _ h => h
    intro kind hkind
    rw [List.mem_singleton.mp hkind]
    trivial
  · exact (holds_recordCompletion serves keeps _).weaken (fun s hs => ⟨hs.1, hs.2 result rfl⟩)
      fun _ _ h => h

omit serves keeps in
/-- An event that says nothing of the agent's work. -/
def EventKind.ClaimsNothing : EventKind → Prop
  | .roundCommitted _ _ _ _ | .branchPushed _ _ | .roundPassed => False
  | _ => True

omit serves keeps in
/-- A call that says nothing of the agent's work, and does not run it again. -/
def RoundCall.Harmless : RoundCall → Prop
  | .append said => ∀ kind, said = .event kind → kind.ClaimsNothing
  | .runCommand _ _ => False
  | _ => True

lemma holds_harmlessly {passed : Prop} {p : RoundCalls α} (hall : p.All fun c _ => c.Harmless) :
    Holds history payload acts (StandsBehind history payload passed) p
      fun _ => StandsBehind history payload passed := by
  have hkept : Triple acts (OthersPush history) (StandsBehind history payload passed)
      (StandsBehind history payload passed) p fun _ => StandsBehind history payload passed := by
    refine .all hall ?_ (standsBehind_stable passed)
    intro c given s answer t hc hs acted
    have haside : (∀ spec limit, c ≠ .runCommand spec limit) → c.SaysNothing →
        StandsBehind history payload passed t := fun hagent hsays =>
      hs.advance (serves.advances c () s answer t acted) (serves.left c () s answer t hagent acted)
        (events_of_saysNothing keeps hsays acted)
    cases c with
    | append said =>
        refine (standsBehind_append serves keeps hs (fun kind hkind => ?_) acted).1
        have hclaims := hc kind hkind
        cases kind with
        | roundCommitted sha files insertions deletions => exact hclaims.elim
        | branchPushed branch remote => exact hclaims.elim
        | roundPassed => exact hclaims.elim
        | _ => trivial
    | runCommand spec limit => exact hc.elim
    | _ => exact haside nofun trivial
  intro s out t hs leads
  obtain ⟨halways, hpost⟩ := hkept s out t hs leads
  exact ⟨halways.1, hpost⟩

end Said

section Job

open Calls InClone

variable {Tree : Type} {history : History Tree} {acts : RoundActs (RoundState Tree)}

lemma harmless_conclusionOf (job : ReadyJob) (verdict : Verdict) (differs : Option BaseDiffers) :
    (job.conclusionOf verdict differs).All fun c _ => c.Harmless := ⟨trivial, fun _ => trivial⟩

lemma yields_conclusionOf (job : ReadyJob) (verdict : Verdict) (differs : Option BaseDiffers) :
    (job.conclusionOf verdict differs).Yields fun out =>
      ∀ conclusion, out = .ok conclusion → conclusion.verdict = verdict := by
  rintro events conclusion ⟨⟩
  rfl

lemma harmless_deliverIfPassed (job : ReadyJob) (verdict : Verdict) :
    (job.deliverIfPassed verdict).All fun c _ => c.Harmless := by
  have hdeliver : job.deliverFromClone.All fun c _ => c.Harmless := by
    refine (all_deliverBranch (P := RoundCall.Harmless) (fun _ => trivial) _ _ _ _ _).bind
      fun delivered => .tryBind ⟨?_, fun _ => trivial⟩ fun _ => trivial
    intro kind hkind
    cases delivered with
    | skipped why => cases hkind
    | pushed branch because => cases hkind
    | opened url =>
        obtain rfl := Appended.event.inj hkind
        trivial
    | alreadyOpen url =>
        obtain rfl := Appended.event.inj hkind
        trivial
  have hcarries : job.branchCarriesWorkInClone.All fun c _ => c.Harmless := by
    refine ⟨trivial, fun events => .bind (.tryBind ⟨trivial, fun _ => trivial⟩ fun _ => trivial) ?_⟩
    rintro (e | ahead)
    · trivial
    · trivial
  cases verdict with
  | failed => trivial
  | passed =>
      refine hcarries.bind ?_
      rintro (_ | _)
      · trivial
      · exact hdeliver

lemma harmless_discardReportingFailure :
    discardReportingFailure.All fun c _ => c.Harmless := by
  refine ⟨trivial, ?_⟩
  rintro (e | removed)
  · exact ⟨nofun, fun _ => trivial⟩
  · trivial

/-- A round starts without saying anything. -/
lemma comesFirst_startRound (start : PinnedRef) (branch : String) :
    (InClone.startRound start branch).All fun c _ => c.ComesFirst :=
  .tryBind (.tryBind ⟨trivial, fun _ => trivial⟩ fun _ => trivial) fun _ => .tryBind
    (.tryBind ⟨trivial, fun _ => trivial⟩ fun _ => .tryBind ⟨trivial, fun _ => trivial⟩
      fun _ => trivial) fun _ => trivial

/-- The end of a round, which calls for nothing that could undo what it said and concludes with
this verdict. -/
lemma holds_concluding (serves : GitServes history acts)
    (keeps : KeepsFrames RoundState.frames acts (OthersPush history)) {payload : RoundPayload}
    (verdict : Verdict) (p : RoundCalls (Except String JobConclusion))
    (hyields : p.Yields fun out => ∀ conclusion, out = .ok conclusion →
      conclusion.verdict = verdict) (hall : p.All fun c _ => c.Harmless) :
    Holds history payload acts (StandsBehind history payload (verdict = .passed)) p
      fun out s => Honest history payload s ∧ ∀ conclusion, out = .ok conclusion →
        conclusion.verdict = .passed → Saved history payload s := by
  refine ((holds_harmlessly serves keeps hall).yields hyields).weaken (fun _ hs => hs) ?_
  intro out s hs
  refine ⟨hs.2.1, fun conclusion hout hpassed => hs.2.2 ?_⟩
  rw [← hs.1 conclusion hout, hpassed]

/-- Commits whose ids spell their history: each holds its last letter. -/
def spelledHistory : History Char where
  tree id := id.toList.getLastD ' '
  reaches newer older := older.toList.isPrefixOf newer.toList = true
  refl c := by simp
  trans := by
    intro a b c hab hbc
    rw [List.isPrefixOf_iff_prefix] at hab hbc ⊢
    exact hbc.trans hab

/-- What this `git` answers, and what it leaves. -/
def obedientGit (s : RoundState Char) (args : List String) : GitOutput × RoundState Char :=
  if args = ["rev-parse", "HEAD"] then
    if trim s.clone.head = s.clone.head then (⟨0, s.clone.head, ""⟩, s)
    else (⟨128, "", "not an id"⟩, s)
  else if args = ["add", "-A"] then
    (⟨0, "", ""⟩, { s with clone := { s.clone with staged := s.clone.work } })
  else if args = ["diff", "--cached", "--quiet"] then
    (⟨if s.clone.staged = spelledHistory.tree s.clone.head then 0 else 1, "", ""⟩, s)
  else if gitVerb args = some "commit" then
    (⟨0, "", ""⟩, { s with clone := { s.clone with head := s.clone.head.push s.clone.staged } })
  else if gitVerb args = some "rev-list" then
    let older := ((stripSuffix "..HEAD" (args.getLastD "")).getD "").toList
    (⟨0, if s.clone.head.toList.isPrefixOf older then "0" else "1", ""⟩, s)
  else if gitVerb args = some "push" then
    let branch := (stripPrefix "HEAD:refs/heads/" (args.getLastD "")).getD ""
    if (s.reflog branch).head?.all fun tip => tip.toList.isPrefixOf s.clone.head.toList then
      (⟨0, "", ""⟩, s.push branch)
    else (⟨1, "", "rejected"⟩, s)
  else (⟨0, "", ""⟩, s)

/-- A world whose agent writes one letter, whose `verify` leaves a hook, and which has no `gh`. -/
def obedientWorld (c : RoundCall) (_ : Unit) (s : RoundState Char) :
    RoundCall.Answer c × RoundState Char :=
  match c with
  | .git args => (.ok (obedientGit s args).1, (obedientGit s args).2)
  | .gh _ => (.error "no gh", s)
  | .runCommand _ _ =>
    (.ok (.exited 0), { s with clone := { s.clone with work := 'b', left := 'b' } })
  | .runShell _ _ => (.ok (.exited 0), { s with clone := { s.clone with asMade := false } })
  | .remaining => (1, s)
  | .sleep _ => ((), s)
  | .append (.event kind) => (.ok (), { s with frames := s.frames ++ [.appendEvent 0 kind] })
  | .append (.output line) => (.ok (), { s with frames := s.frames ++ [.appendOutput line] })
  | .eventsSoFar => (eventsOf s.frames, s)
  | .discard => (.ok (), s)

/-- How that world acts on calls. -/
def obedientActs : RoundActs (RoundState Char) :=
  fun c given s answer t => obedientWorld c given s = (answer, t)

lemma obedientGit_advances (s : RoundState Char) (args : List String) :
    Advances spelledHistory s (obedientGit s args).2 := by
  rw [obedientGit]
  dsimp only
  split_ifs
  any_goals exact .of_reflog rfl
  rename_i hforward
  refine .push fun tip htip => ?_
  rw [Option.mem_def.mp htip, Option.all_some] at hforward
  exact hforward

lemma obedientGit_left (s : RoundState Char) (args : List String) :
    (obedientGit s args).2.clone.left = s.clone.left ∧
      (obedientGit s args).2.clone.asMade = s.clone.asMade := by
  rw [obedientGit]
  dsimp only
  split_ifs
  all_goals exact ⟨rfl, rfl⟩

lemma obedientGit_frames (s : RoundState Char) (args : List String) :
    (obedientGit s args).2.frames = s.frames := by
  rw [obedientGit]
  dsimp only
  split_ifs
  all_goals rfl

/-- What only looks leaves the clone as it is. -/
lemma obedientGit_looks (s : RoundState Char) {args : List String}
    (h : gitVerb args ∈ [some "rev-parse", some "diff", some "rev-list"]) :
    (obedientGit s args).2.clone = s.clone := by
  have hadd : args ≠ ["add", "-A"] := by
    rintro rfl
    simp [gitVerb] at h
  have hcommit : gitVerb args ≠ some "commit" := by
    intro hverb
    rw [hverb] at h
    simp at h
  have hpush : gitVerb args ≠ some "push" := by
    intro hverb
    rw [hverb] at h
    simp at h
  rw [obedientGit, if_neg hadd, if_neg hcommit, if_neg hpush]
  split_ifs
  all_goals rfl

lemma obedientGit_push (s : RoundState Char) (remote branch : String) :
    obedientGit s (pushArgs remote branch) =
      if (s.reflog branch).head?.all fun tip => tip.toList.isPrefixOf s.clone.head.toList then
        (⟨0, "", ""⟩, s.push branch)
      else (⟨1, "", "rejected"⟩, s) := by
  have hspec : stripPrefix "HEAD:refs/heads/" ((pushArgs remote branch).getLastD "") =
      some branch := stripPrefix_append
  have hverb : gitVerb (pushArgs remote branch) = some "push" := rfl
  rw [obedientGit, if_neg (by simp [pushArgs]), if_neg (by simp [pushArgs]),
    if_neg (by simp [pushArgs]), hverb, if_neg (by simp), if_neg (by simp), if_pos rfl, hspec]
  rfl

lemma obedientGit_count (s : RoundState Char) (since : String) :
    obedientGit s ["rev-list", "--count", since ++ "..HEAD"] =
      (⟨0, if s.clone.head.toList.isPrefixOf since.toList then "0" else "1", ""⟩, s) := by
  have hrange : stripSuffix "..HEAD" (["rev-list", "--count", since ++ "..HEAD"].getLastD "") =
      some since := stripSuffix_append
  have hverb : gitVerb ["rev-list", "--count", since ++ "..HEAD"] = some "rev-list" := rfl
  rw [obedientGit, if_neg (by simp), if_neg (by simp), if_neg (by simp), hverb, if_neg (by simp),
    if_pos rfl, hrange]
  rfl

lemma obedientGit_print (s : RoundState Char) :
    (obedientGit s ["rev-parse", "HEAD"]).1 =
      if trim s.clone.head = s.clone.head then ⟨0, s.clone.head, ""⟩
      else ⟨128, "", "not an id"⟩ := by
  rw [obedientGit, if_pos rfl]
  split_ifs
  · rfl
  · rfl

lemma obedientGit_add (s : RoundState Char) :
    (obedientGit s ["add", "-A"]).2.clone = { s.clone with staged := s.clone.work } := by
  rw [obedientGit, if_neg (by simp), if_pos rfl]

lemma obedientGit_compare (s : RoundState Char) :
    (obedientGit s ["diff", "--cached", "--quiet"]).1.exitCode =
      if s.clone.staged = spelledHistory.tree s.clone.head then 0 else 1 := by
  rw [obedientGit, if_neg (by simp), if_neg (by simp), if_pos rfl]

lemma obedientGit_commit (s : RoundState Char) (message : String) :
    (obedientGit s ["commit", "--no-verify", "-m", message]).2.clone.head =
      s.clone.head.push s.clone.staged := by
  have hverb : gitVerb ["commit", "--no-verify", "-m", message] = some "commit" := rfl
  rw [obedientGit, if_neg (by simp), if_neg (by simp), if_neg (by simp), if_pos hverb]

lemma obedientActs_git {args : List String} {given : Unit} {s t : RoundState Char}
    {answer : GitAnswer} (acted : obedientActs (.git args) given s answer t) :
    answer = .ok (obedientGit s args).1 ∧ t = (obedientGit s args).2 :=
  ⟨(congrArg Prod.fst acted).symm, (congrArg Prod.snd acted).symm⟩

lemma obedientActs_serves : GitServes spelledHistory obedientActs where
  advances := by
    intro c given s answer t acted
    cases c with
    | git args =>
        obtain ⟨-, rfl⟩ := obedientActs_git acted
        exact obedientGit_advances s args
    | append said => cases said <;> cases acted <;> exact .of_reflog rfl
    | _ =>
        cases acted
        exact .of_reflog rfl
  keeps := by
    intro c given s answer t hruns acted hmade
    cases c with
    | git args =>
        obtain ⟨-, rfl⟩ := obedientActs_git acted
        exact (obedientGit_left s args).2.trans hmade
    | append said => cases said <;> cases acted <;> exact hmade
    | runCommand spec limit => exact absurd trivial hruns
    | runShell command limit => exact absurd trivial hruns
    | _ =>
        cases acted
        exact hmade
  pushes := by
    intro remote branch given s answer t acted _
    obtain ⟨rfl, rfl⟩ := obedientActs_git acted
    rw [obedientGit_push]
    split
    · exact ⟨rfl, fun operation text _ => congrArg List.head? (if_pos rfl)⟩
    · exact ⟨rfl, fun operation text htext => by cases htext⟩
  looks := by
    intro args given s answer t hverb acted _
    obtain ⟨-, rfl⟩ := obedientActs_git acted
    exact obedientGit_looks s hverb
  prints := by
    intro given s answer t acted _ operation sha hsha
    obtain ⟨rfl, -⟩ := obedientActs_git acted
    rw [obedientGit_print] at hsha
    split at hsha
    · rename_i htrim
      have hprinted : trim s.clone.head = sha := Except.ok.inj hsha
      rw [← hprinted, htrim]
    · cases hsha
  stages := by
    intro given s answer t acted _ operation text _
    obtain ⟨-, rfl⟩ := obedientActs_git acted
    exact obedientGit_add s
  compares := by
    intro given s out t acted _ hexit
    obtain ⟨hout, -⟩ := obedientActs_git acted
    obtain rfl := Except.ok.inj hout
    rw [obedientGit_compare] at hexit
    by_contra hstaged
    rw [if_neg hstaged] at hexit
    cases hexit
  commits := by
    intro message given s answer t acted _ operation text _
    obtain ⟨-, rfl⟩ := obedientActs_git acted
    rw [obedientGit_commit]
    simp [spelledHistory]
  counts := by
    intro commit since given s answer t hcommit acted _ operation count hcount
    obtain ⟨rfl, -⟩ := obedientActs_git acted
    have hrange : s!"{since}..{commit}" = since ++ "..HEAD" := by
      rw [hcommit]
      exact String.append_assoc
    rw [hrange, obedientGit_count] at hcount
    have hzero : trim "0" = "0" := by decide
    have hone : trim "1" ≠ "0" := by decide
    have hreaches : spelledHistory.reaches since s.clone.head ↔
        s.clone.head.toList.isPrefixOf since.toList = true := Iff.rfl
    rw [hreaches]
    split at hcount
    · rename_i hprefix
      obtain rfl : trim "0" = count := Except.ok.inj hcount
      exact ⟨fun _ => hprefix, fun _ => hzero⟩
    · rename_i hprefix
      obtain rfl : trim "1" = count := Except.ok.inj hcount
      exact ⟨fun h => absurd h hone, fun h => absurd h hprefix⟩
  sleeps := by
    rintro wait given s answer t ⟨⟩ _
    rfl
  leaves := by
    rintro spec limit given s outcome t ⟨⟩
    rfl
  left := by
    intro c given s answer t hagent acted
    cases c with
    | git args =>
        obtain ⟨-, rfl⟩ := obedientActs_git acted
        exact (obedientGit_left s args).1
    | append said => cases said <;> cases acted <;> rfl
    | runCommand spec limit => exact absurd rfl (hagent spec limit)
    | _ =>
        cases acted
        rfl

lemma obedientActs_keepsSetup : AgentKeepsSetup obedientActs := by
  rintro spec limit given s outcome t ⟨⟩ hmade
  exact hmade

lemma obedientActs_keepsFrames :
    KeepsFrames RoundState.frames obedientActs (OthersPush spelledHistory) where
  appends := by
    intro said given s t acted
    cases said with
    | event kind =>
        cases acted
        exact ⟨_, rfl, rfl⟩
    | output line =>
        cases acted
        exact ⟨_, rfl, rfl⟩
  unwritten := by
    intro said given s e t acted
    cases said with
    | event kind => cases acted
    | output line => cases acted
  commands := by
    intro c given s answer t hc acted
    refine ⟨[], ?_⟩
    rw [List.map_nil, List.append_nil]
    cases c with
    | runCommand spec limit =>
        cases acted
        rfl
    | runShell command limit =>
        cases acted
        rfl
    | _ => exact hc.elim
  events := by
    rintro given s events t ⟨⟩
    rfl
  quiet := by
    intro c given s answer t hc acted
    cases c with
    | git args =>
        obtain ⟨-, rfl⟩ := obedientActs_git acted
        exact obedientGit_frames s args
    | append said => exact hc.elim
    | runCommand spec limit => exact hc.elim
    | runShell command limit => exact hc.elim
    | _ =>
        cases acted
        rfl
  drift := fun _ _ drifted => drifted.frames

/-- A clone at the first commit, which the job's branch is at. -/
def freshClone : RoundState Char where
  clone := { work := 'a', staged := 'a', head := "a", asMade := true, left := 'a' }
  reflog branch := if branch = "al/job-1" then ["a"] else []
  frames := []

/-- The first round of a job whose work is verified. -/
def judgedJob : ReadyJob where
  payload := {
    jobId := 1
    remoteUrl := "/srv/git"
    remoteName := "origin"
    start := ⟨"main", "a"⟩
    branch := "al/job-1"
    command := ⟨"agent", ["do it"]⟩
    commitMessage := "job 1: do it"
    verify := some "make check"
    commandLimitSecs := none
    provisionToolchain := false }
  config := {}
  base := ⟨"main", "a"⟩
  prompt := "do it"
  claimed := true


/-- How that job's round goes in that world. -/
lemma leads_judgedJob :
    Leads obedientActs (OthersPush spelledHistory) judgedJob.runInClone freshClone
      (some (judgedJob.runInClone.answeredBy obedientWorld freshClone).1)
      (judgedJob.runInClone.answeredBy obedientWorld freshClone).2 :=
  leads_answeredBy judgedJob.runInClone freshClone

/-- A round that passes, with work, is a run of its stages, as they were answered. -/
theorem runInClone_concludes_pushed :
    ∃ answers world, RunAnswered judgedJob world answers ∧
      (judgedJob.run world).1.verdict = .passed ∧
      stampedBy world.clock (judgedJob.run world).2 =
        [.appendEvent 0 (.roundCommitted "ab" 0 0 0),
          .appendEvent 0 (.branchPushed "al/job-1" "origin"), .appendEvent 0 .roundPassed,
          .appendOutput "pushed al/job-1 — no pull request opened: could not run `gh`: no gh"] := by
  have hpassed : (judgedJob.runInClone.answeredBy obedientWorld freshClone).1.toOption.map
      JobConclusion.verdict = some .passed := by decide +kernel
  have hframes : (judgedJob.runInClone.answeredBy obedientWorld freshClone).2.frames =
      [.appendEvent 0 (.roundCommitted "ab" 0 0 0),
        .appendEvent 0 (.branchPushed "al/job-1" "origin"), .appendEvent 0 .roundPassed,
        .appendOutput "pushed al/job-1 — no pull request opened: could not run `gh`: no gh"] := by
    decide +kernel
  cases hout : (judgedJob.runInClone.answeredBy obedientWorld freshClone).1 with
  | error e =>
      rw [hout] at hpassed
      cases hpassed
  | ok conclusion =>
      have hleads := leads_judgedJob
      rw [hout] at hpassed hleads
      obtain ⟨⟨answers, hanswers⟩, hconcludes⟩ :=
        runInClone_concludes obedientActs_keepsFrames rfl hleads
      obtain ⟨world, answered, hworld, hsaid⟩ := hconcludes answers hanswers
      refine ⟨answers, world, answered, ?_, hsaid.trans hframes⟩
      rw [hworld]
      exact Option.some.inj hpassed

end Job

end AssemblyLine
