import AssemblyLine.Daemon.RepoKey
import AssemblyLine.Run.Claim
import Mathlib.Data.List.MinMax

/-!
# Where a remote's pushes go

A job clones a remote and pushes its branch back to where it cloned from, so `remoteUrl` refuses a
remote that pushes somewhere else.  It finds out from what git prints: the URL the remote fetches
from, whether it has a `pushurl`, and each `pushInsteadOf` of the repository's own config.

`RemoteConfig` is that config, with where git fetches from and pushes to by it.  A rule is looked
for in what the remote fetches from, which an `insteadOf` may already have rewritten, and a rule
whose base has a space is taken to stand instead of something that no URL need begin with
(`Rewrite.takenFor`); `accepted_pushes_home_iff` is what must hold of a config's rules for pushes
that go elsewhere to be noticed.
-/

namespace AssemblyLine

/-! ## The check -/

/-- A relative path below a directory. -/
def joinedPath (dir path : String) : String :=
  if dir = "" ∨ endsWith "/" dir then dir ++ path else dir ++ "/" ++ path

/-- `url` as git reaches it from `repo`, made to mean the same from any directory. -/
def reachableFromAnywhere (repo url : String) : String :=
  let namesAHost := (splitOnce "://" url).isSome ∨ (scpLikeParts url).isSome
  if namesAHost ∨ startsWith "/" url then url else joinedPath repo url

/-- The key and the prefix of each rule that was printed. -/
def keysAndPrefixes (localRewrites : String) : List (String × String) :=
  (textLines localRewrites).filterMap (splitOnce " ")

/-- `git::remote_url`: the URL a job clones `remote` from and pushes its branch back to, by what
`git` answers about the remote's URL, its `pushurl`s and the `pushInsteadOf`s of the repository. -/
def remoteUrl (repo remote : String) (getUrl getPushurls getRewrites : GitAnswer) :
    Except String (Option String) := do
  let fetched ← getUrl
  if fetched.exitCode = 0 then
    let fetchUrl := trim fetched.stdout
    let pushurlKey := s!"remote.{remote}.pushurl"
    let hasPushurl := (← getPushurls).exitCode = 0
    let localRewrites := (← getRewrites).stdout
    let localRewriteOfThisUrl :=
      (keysAndPrefixes localRewrites).find? fun rule => startsWith rule.2 fetchUrl
    if hasPushurl then
      .error (s!"'{remote}' fetches from {fetchUrl} but pushes elsewhere — a job clones from and " ++
        s!"pushes back to one URL, so unset {pushurlKey} or point it at the same place")
    else
      match localRewriteOfThisUrl with
      | some (key, _) =>
        .error (s!"'{remote}' fetches from {fetchUrl} but {key} in this repository's config " ++
          "rewrites where it pushes — a job's clone does not see this repository's config, so " ++
          s!"its push would go to {fetchUrl}; move the setting to your global config, or remove it")
      | none => .ok (some (reachableFromAnywhere repo fetchUrl))
  else .ok none

section Checks

variable {repo remote url : String} {getUrl getPushurls getRewrites : GitAnswer}

/-- A remote is taken when it has a URL and no `pushurl`, and no printed rule is about the URL. -/
lemma remoteUrl_eq_ok_some_iff :
    remoteUrl repo remote getUrl getPushurls getRewrites = .ok (some url) ↔
      ∃ fetched pushurls rewrites, getUrl = .ok fetched ∧ getPushurls = .ok pushurls ∧
        getRewrites = .ok rewrites ∧ fetched.exitCode = 0 ∧ pushurls.exitCode ≠ 0 ∧
        (∀ rule ∈ keysAndPrefixes rewrites.stdout,
          startsWith rule.2 (trim fetched.stdout) = false) ∧
        url = reachableFromAnywhere repo (trim fetched.stdout) := by
  have hnone : ∀ (rules : List (String × String)) (fetchUrl : String),
      (rules.find? fun rule => startsWith rule.2 fetchUrl) = none ↔
        ∀ rule ∈ rules, startsWith rule.2 fetchUrl = false := by
    intro rules fetchUrl
    rw [List.find?_eq_none]
    simp only [Bool.not_eq_true]
  simp only [← hnone]
  cases getUrl with
  | error e => simp [remoteUrl, bind, Except.bind]
  | ok fetched =>
      by_cases hfetched : fetched.exitCode = 0
      · cases getPushurls with
        | error e => simp [remoteUrl, bind, Except.bind, hfetched]
        | ok pushurls =>
            cases getRewrites with
            | error e => simp [remoteUrl, bind, Except.bind, hfetched]
            | ok rewrites =>
                by_cases hpush : pushurls.exitCode = 0
                · simp [remoteUrl, bind, Except.bind, hfetched, hpush]
                · cases hfind : (keysAndPrefixes rewrites.stdout).find? fun rule =>
                    startsWith rule.2 (trim fetched.stdout) with
                  | none => simp [remoteUrl, bind, Except.bind, hfetched, hpush, hfind, eq_comm]
                  | some rule =>
                      have hrefused : remoteUrl repo remote (.ok fetched) (.ok pushurls)
                          (.ok rewrites) ≠ .ok (some url) := by
                        simp [remoteUrl, bind, Except.bind, hfetched, hpush, hfind]
                      refine ⟨fun h => absurd h hrefused, ?_⟩
                      rintro ⟨_, _, _, hsame, -, hsame', -, -, hall, -⟩
                      obtain rfl := Except.ok.inj hsame
                      obtain rfl := Except.ok.inj hsame'
                      rw [hfind] at hall
                      cases hall
      · simp [remoteUrl, bind, Except.bind, hfetched]

end Checks

/-! ## git -/

/-- `url.<base>.insteadOf`, or `url.<base>.pushInsteadOf`, with what it stands instead of. -/
structure Rewrite where
  base : String
  insteadOf : String
deriving DecidableEq, Repr

/-- A `pushInsteadOf` as `config --get-regexp` prints it. -/
def Rewrite.printed (rule : Rewrite) : String :=
  "url." ++ rule.base ++ ".pushinsteadof " ++ rule.insteadOf

/-- What the check takes a rule to stand instead of: its prefix, or, where its base has a space, all
that comes after the first of these. -/
def Rewrite.takenFor (rule : Rewrite) : String :=
  match splitOnce " " rule.base with
  | none => rule.insteadOf
  | some (_, rest) => rest ++ ".pushinsteadof " ++ rule.insteadOf

/-- Whether the check notices a rule in a URL. -/
inductive Rewrite.NoticedIn (rule : Rewrite) (url : String) : Prop
  /-- The URL begins with what the rule is taken to stand instead of, up to its first line end. -/
  | begins (first : String) (later : List String)
      (lines : textLines (rule.takenFor ++ "\n") = first :: later)
      (starts : startsWith first url = true)
  /-- The URL begins with what follows a word on a later line of it. -/
  | below (first : String) (later : List String)
      (lines : textLines (rule.takenFor ++ "\n") = first :: later) (word start : String)
      (one : ' ' ∉ word.toList) (line : word ++ (" " ++ start) ∈ later)
      (starts : startsWith start url = true)

/-- The rule for the longest beginning of a URL. -/
def longestMatch (rules : List Rewrite) (url : String) : Option Rewrite :=
  (rules.filter fun rule => startsWith rule.insteadOf url).argmax fun rule => rule.insteadOf.length

/-- What the rules make of a URL, when one of them is about it. -/
def rewritten (rules : List Rewrite) (url : String) : Option String :=
  (longestMatch rules url).bind fun rule =>
    (stripPrefix rule.insteadOf url).map fun rest => rule.base ++ rest

/-- What a repository's config says about a remote. -/
structure RemoteConfig where
  url : String
  pushurls : List String
  insteadOf : List Rewrite
  pushInsteadOf : List Rewrite
deriving DecidableEq, Repr

namespace RemoteConfig

/-- Where git fetches from. -/
def fetchDestination (c : RemoteConfig) : String := (rewritten c.insteadOf c.url).getD c.url

/-- Where git pushes to. -/
def pushDestinations (c : RemoteConfig) : List String :=
  if c.pushurls = [] then [(rewritten c.pushInsteadOf c.url).getD c.fetchDestination]
  else c.pushurls.map fun url => (rewritten c.insteadOf url).getD url

/-- What `git` prints, a line to each of some texts; it fails when there are none. -/
def printed (lines : List String) : GitAnswer :=
  .ok ⟨if lines = [] then 1 else 0, String.join (lines.map (· ++ "\n")), ""⟩

/-- `remoteUrl` in a repository with this config. -/
def remoteUrl (c : RemoteConfig) (repo remote : String) : Except String (Option String) :=
  AssemblyLine.remoteUrl repo remote (printed [c.fetchDestination]) (printed c.pushurls)
    (printed (c.pushInsteadOf.map Rewrite.printed))

/-- The text `git` prints for the rules of a config. -/
def rewritesText (c : RemoteConfig) : String :=
  String.join ((c.pushInsteadOf.map Rewrite.printed).map (· ++ "\n"))

section Configs

variable {c : RemoteConfig} {repo remote url : String}

/-- Up to the first space, what is printed of a rule is a key. -/
lemma printed_eq (rule : Rewrite) : ∃ key, ' ' ∉ key.toList ∧
    rule.printed = key ++ (" " ++ rule.takenFor) := by
  rw [Rewrite.printed, Rewrite.takenFor]
  cases hbase : splitOnce " " rule.base with
  | none =>
      have hspace : ' ' ∉ rule.base.toList :=
        (@splitOnce_singleton_eq_none_iff ' ' rule.base).mp hbase
      refine ⟨"url." ++ rule.base ++ ".pushinsteadof", by simp [hspace], ?_⟩
      rw [show ".pushinsteadof " = ".pushinsteadof" ++ " " from rfl]
      simp only [String.append_assoc]
  | some parts =>
      obtain ⟨before, after⟩ := parts
      obtain ⟨hspace, hparts⟩ :=
        (@splitOnce_singleton_eq_some_iff ' ' rule.base before after).mp hbase
      refine ⟨"url." ++ before, by simp [hspace], ?_⟩
      rw [hparts, show String.singleton ' ' = " " from rfl]
      simp only [String.append_assoc]

/-- What is read of the lines a rule is printed on. -/
lemma noticedIn_iff {rule : Rewrite} :
    (∃ start ∈ afterSpaces (textLines (rule.printed ++ "\n")), startsWith start url = true) ↔
      rule.NoticedIn url := by
  obtain ⟨key, hkey, hprinted⟩ := printed_eq rule
  obtain ⟨first, later, hlines, hafter⟩ := afterSpaces_textLines hkey rule.takenFor
  rw [hprinted, hafter]
  have hbelow : ∀ start, start ∈ afterSpaces later ↔
      ∃ word, ' ' ∉ word.toList ∧ word ++ (" " ++ start) ∈ later := by
    intro start
    have hsplit : ∀ line word, splitOnce " " line = some (word, start) ↔
        ' ' ∉ word.toList ∧ line = word ++ (" " ++ start) :=
      fun line word => @splitOnce_singleton_eq_some_iff ' ' line word start
    simp only [afterSpaces, List.mem_filterMap, Option.map_eq_some_iff, Prod.exists,
      exists_eq_right, hsplit]
    constructor
    · rintro ⟨line, hline, word, hword, rfl⟩
      exact ⟨word, hword, hline⟩
    · rintro ⟨word, hword, hline⟩
      exact ⟨_, hline, word, hword, rfl⟩
  constructor
  · rintro ⟨start, hstart, hstarts⟩
    rcases List.mem_cons.mp hstart with rfl | hlater
    · exact .begins start later hlines hstarts
    · obtain ⟨word, hword, hline⟩ := (hbelow start).mp hlater
      exact .below first later hlines word start hword hline hstarts
  · rintro (⟨first', later', hlines', hstarts⟩ |
      ⟨first', later', hlines', word, start, hword, hline, hstarts⟩)
    all_goals
      rw [hlines] at hlines'
      obtain ⟨rfl, rfl⟩ := List.cons.inj hlines'
    · exact ⟨first, List.mem_cons_self, hstarts⟩
    · exact ⟨start, List.mem_cons_of_mem _ ((hbelow start).mpr ⟨word, hword, hline⟩), hstarts⟩

/-- The rules that are found are those that are noticed. -/
lemma exists_noticed_iff :
    (∃ shown ∈ keysAndPrefixes c.rewritesText, startsWith shown.2 url = true) ↔
      ∃ rule ∈ c.pushInsteadOf, rule.NoticedIn url := by
  have hstarts : ∀ lines : List String,
      (∃ shown ∈ lines.filterMap (splitOnce " "), startsWith shown.2 url = true) ↔
        ∃ start ∈ afterSpaces lines, startsWith start url = true := by
    intro lines
    rw [afterSpaces, ← List.map_filterMap]
    simp only [List.mem_map, exists_exists_and_eq_and]
  rw [keysAndPrefixes, hstarts, rewritesText, textLines_join, List.flatMap_map, afterSpaces,
    List.filterMap_flatMap]
  simp only [← noticedIn_iff, List.mem_flatMap]
  constructor
  · rintro ⟨start, ⟨rule, hrule, hstart⟩, hbegins⟩
    exact ⟨rule, hrule, start, hstart, hbegins⟩
  · rintro ⟨rule, hrule, start, hstart, hbegins⟩
    exact ⟨start, ⟨rule, hrule, hstart⟩, hbegins⟩

/-- A remote is taken when it has no `pushurl`, and no rule of the config is noticed in where it
fetches from. -/
lemma remoteUrl_ok_some_iff : c.remoteUrl repo remote = .ok (some url) ↔
    c.pushurls = [] ∧ (¬ ∃ rule ∈ c.pushInsteadOf, rule.NoticedIn (trim c.fetchDestination)) ∧
      url = reachableFromAnywhere repo (trim c.fetchDestination) := by
  rw [remoteUrl, remoteUrl_eq_ok_some_iff, ← exists_noticed_iff]
  simp only [not_exists, not_and, Bool.not_eq_true]
  have htrim : trim (String.join ([c.fetchDestination].map (· ++ "\n"))) =
      trim c.fetchDestination := by
    rw [List.map_singleton, String.join_cons, String.join_nil, String.append_empty,
      trim_append_lineFeed]
  constructor
  · rintro ⟨fetched, pushurls, rewrites, hfetched, hpushurls, hrewrites, -, hnone, hall, hurl⟩
    obtain rfl := Except.ok.inj hfetched
    obtain rfl := Except.ok.inj hpushurls
    obtain rfl := Except.ok.inj hrewrites
    dsimp only at hnone hall hurl
    rw [htrim] at hall hurl
    exact ⟨by simpa using hnone, hall, hurl⟩
  · rintro ⟨hpush, hall, hurl⟩
    refine ⟨_, _, _, rfl, rfl, rfl, rfl, ?_, ?_, ?_⟩
    · simp [hpush]
    · dsimp only
      rwa [htrim]
    · dsimp only
      rw [htrim]
      exact hurl

/-- A rule on one line whose base has no space is noticed in the URLs that begin with its prefix. -/
lemma noticedIn_iff_of_plain {rule : Rewrite} (hspace : ' ' ∉ rule.base.toList)
    (hfeed : '\n' ∉ rule.insteadOf.toList) (hreturn : '\r' ∉ rule.insteadOf.toList) :
    rule.NoticedIn url ↔ startsWith rule.insteadOf url = true := by
  have htaken : rule.takenFor = rule.insteadOf := by
    have hnone : splitOnce " " rule.base = none := @splitOnce_of_notMem ' ' rule.base hspace
    rw [Rewrite.takenFor, hnone]
  have hline : textLines (rule.takenFor ++ "\n") = [rule.insteadOf] := by
    rw [htaken, textLines_line hfeed hreturn]
  constructor
  · rintro (⟨first, later, hlines, hstarts⟩ |
      ⟨first, later, hlines, word, start, hword, hmem, hstarts⟩)
    all_goals
      rw [hline] at hlines
      obtain ⟨rfl, rfl⟩ := List.cons.inj hlines
    · exact hstarts
    · cases hmem
  · intro hstarts
    exact .begins _ _ hline hstarts

/-- Where no base has a space and no prefix a line end, and the URL itself is what is fetched from,
pushes that go elsewhere are noticed. -/
theorem noticed_of_plain (hurl : rewritten c.insteadOf c.url = none) (htrim : trim c.url = c.url)
    (hplain : ∀ rule ∈ c.pushInsteadOf, ' ' ∉ rule.base.toList ∧
      '\n' ∉ rule.insteadOf.toList ∧ '\r' ∉ rule.insteadOf.toList) {dest : String}
    (hdest : rewritten c.pushInsteadOf c.url = some dest) :
    ∃ rule ∈ c.pushInsteadOf, rule.NoticedIn (trim c.fetchDestination) := by
  obtain ⟨rule, hrule, -⟩ := Option.bind_eq_some_iff.mp hdest
  obtain ⟨hmem, hstarts⟩ := List.mem_filter.mp (List.argmax_mem hrule)
  obtain ⟨hspace, hfeed, hreturn⟩ := hplain rule hmem
  refine ⟨rule, hmem, (noticedIn_iff_of_plain hspace hfeed hreturn).mpr ?_⟩
  rw [fetchDestination, hurl, Option.getD_none, htrim]
  exact hstarts

/-- **A remote whose pushes go elsewhere is refused where one of the config's rules is noticed.**  A
remote that is taken pushes to where it fetches from exactly when it has a `pushurl`, or no rule
sends its pushes elsewhere, or some rule is taken to stand instead of the beginning of where it
fetches from. -/
theorem accepted_pushes_home_iff (c : RemoteConfig) (repo remote : String) :
    (∀ url, c.remoteUrl repo remote = .ok (some url) →
      ∀ dest ∈ c.pushDestinations, dest = c.fetchDestination) ↔
        c.pushurls ≠ [] ∨
          (∀ dest, rewritten c.pushInsteadOf c.url = some dest → dest = c.fetchDestination) ∨
            ∃ rule ∈ c.pushInsteadOf, rule.NoticedIn (trim c.fetchDestination) := by
  constructor
  · intro h
    by_contra hmissed
    simp only [not_or, not_not] at hmissed
    obtain ⟨hpush, helsewhere, hunnoticed⟩ := hmissed
    refine helsewhere fun dest hdest =>
      h _ (remoteUrl_ok_some_iff.mpr ⟨hpush, hunnoticed, rfl⟩) dest ?_
    rw [pushDestinations, if_pos hpush, hdest]
    exact List.mem_singleton_self dest
  · intro h url hurl dest hdest
    obtain ⟨hpush, hunnoticed, -⟩ := remoteUrl_ok_some_iff.mp hurl
    rw [pushDestinations, if_pos hpush, List.mem_singleton] at hdest
    have hhome := (h.resolve_left (not_not.mpr hpush)).resolve_right hunnoticed
    cases hrewritten : rewritten c.pushInsteadOf c.url with
    | none => rw [hdest, hrewritten, Option.getD_none]
    | some pushed =>
        rw [hrewritten, Option.getD_some] at hdest
        rw [hdest]
        exact hhome pushed hrewritten

/-- A rule with a space in its base, and one about a URL that another rule rewrites, are missed: the
remote is taken, and pushes elsewhere. -/
theorem push_rewrite_missed :
    let spaced : RemoteConfig :=
      ⟨"/srv/origin.git", [], [], [⟨"/my disk/elsewhere.git", "/srv/origin.git"⟩]⟩
    let rewritten : RemoteConfig :=
      ⟨"gh:o/r", [], [⟨"https://github.com/", "gh:"⟩], [⟨"git@github.com:", "gh:"⟩]⟩
    (spaced.remoteUrl "/work" "origin" = .ok (some "/srv/origin.git") ∧
      spaced.fetchDestination = "/srv/origin.git" ∧
      spaced.pushDestinations = ["/my disk/elsewhere.git"]) ∧
    rewritten.remoteUrl "/work" "origin" = .ok (some "https://github.com/o/r") ∧
      rewritten.fetchDestination = "https://github.com/o/r" ∧
      rewritten.pushDestinations = ["git@github.com:o/r"] := by
  decide +kernel

end Configs

end RemoteConfig

end AssemblyLine
