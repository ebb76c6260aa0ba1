import AssemblyLine.Daemon.RepoKey
import AssemblyLine.Framework.Slices

/-!
# What a client's URL can do to the root

The URL a key is made of is whatever text a client sends.  The source cuts it by byte index, and a
cut outside the text or inside a character ends the daemon; it then joins what it cut out to the
root, where an absolute path or a `..` would name a directory somewhere else.

The `try` functions here are the source's, with nothing to return where it would panic, and
`joinPath` is what joining text to a path does.  `tryFromRemoteUrl_eq` says that no URL ends the
daemon, and `key_stays_under_root` that no key names a directory but its own, below the root.
-/

namespace AssemblyLine

/-! ## Cutting by byte -/

/-- `searchedFrom`, by byte. -/
def trySearchedFrom (text : List Char) : Option ℕ :=
  match findByte '[' text, findByte ':' text with
  | some opened, some colon =>
    if opened < colon then
      (sliceFrom opened text).map fun bracketed =>
        match findByte ']' bracketed with
        | some close => opened + close
        | none => opened
    else some 0
  | _, _ => some 0

/-- `splitAtHostColon`, by byte. -/
def trySplitAtHostColon (s : String) : Option (Option (String × String)) := do
  let text := s.toList
  let searchedFrom ← trySearchedFrom text
  let searched ← sliceFrom searchedFrom text
  match findByte ':' searched with
  | none => some none
  | some colon =>
    let front ← sliceTo (searchedFrom + colon) text
    let back ← sliceFrom (searchedFrom + colon + 1) text
    some (some (String.ofList front, String.ofList back))

/-- `scpLikeParts`, by byte. -/
def tryScpLikeParts (url : String) : Option (Option (String × String)) :=
  if (splitOnce "://" url).isSome then some none
  else (trySplitAtHostColon url).map fun parts => parts.filter fun parts => '/' ∉ parts.1.toList

/-- `hostOf`, by byte. -/
def tryHostOf (authority : String) : Option String :=
  let host := (fields '@' authority).getLast?.getD authority
  (trySplitAtHostColon host).map fun
    | some (host, _) => host
    | none => host

/-- `httpsEquivalent`, by byte. -/
def tryHttpsEquivalent (url : String) : Option String := do
  let authorityAndPath ←
    match stripPrefix "ssh://" url with
    | some rest => some (splitOnce "/" rest)
    | none => tryScpLikeParts url
  match authorityAndPath with
  | some (authority, path) =>
    (tryHostOf authority).map fun host => "https://" ++ host ++ "/" ++ trimStartChar '/' path
  | none => some url

namespace RepoKey

/-- `hostAndPath`, by byte. -/
def tryHostAndPath (https : String) : Option (Option (String × String)) :=
  match splitOnce "://" https with
  | some ("file", path) => some (some ("local", path))
  | some (_, rest) =>
    let (authority, path) := (splitOnce "/" rest).getD (rest, "")
    (tryHostOf authority).map fun host =>
      some (String.ofList (host.toList.map Char.toLower), path)
  | none => some (if startsWith "/" https then some ("local", https) else none)

/-- `fromRemoteUrl`, by byte. -/
def tryFromRemoteUrl (url : String) : Option (Option RepoKey) := do
  let https ← tryHttpsEquivalent url
  match ← tryHostAndPath https with
  | some (host, path) =>
    let segments := host :: pathSegments path
    some (if segments.length > 1 ∧ segments.all isKeyableSegment then some ⟨segments⟩ else none)
  | none => some none

end RepoKey

section Cutting

variable {text : List Char} {i j : ℕ}

/-- Of two characters that are there, the first found by byte is the first found by character. -/
lemma byteLen_take_lt_iff (hi : i < text.length) (hj : j < text.length) :
    byteLen (text.take i) < byteLen (text.take j) ↔ i < j := by
  rw [byteLen_lt_iff (List.take_prefix i text) (List.take_prefix j text), List.length_take,
    List.length_take]
  omega

lemma lt_length_of_idxOf? {c : Char} (h : text.idxOf? c = some i) : i < text.length :=
  (List.idxOf?_eq_some_iff.mp h).1

/-- A character found after some others is one byte more than what is before it, when it is one
byte. -/
lemma byteLen_take_found {c : Char} (hc : c.utf8Size = 1)
    (h : (text.drop i).idxOf? c = some j) :
    byteLen (text.take (i + j)) + 1 = byteLen (text.take (i + j + 1)) := by
  obtain ⟨hlt, hat, -⟩ := List.idxOf?_eq_some_iff.mp h
  rw [List.length_drop] at hlt
  rw [List.getElem_drop] at hat
  rw [List.take_succ_eq_append_getElem (by omega), hat, byteLen_append, byteLen_cons, byteLen_nil,
    hc]

/-- The search for the colon starts between two characters. -/
lemma trySearchedFrom_eq (text : List Char) :
    trySearchedFrom text = some (byteLen (text.take (searchedFrom text))) := by
  unfold trySearchedFrom searchedFrom
  rw [findByte, findByte]
  cases hopened : text.idxOf? '[' with
  | none => rfl
  | some opened =>
      cases hcolon : text.idxOf? ':' with
      | none => rfl
      | some colon =>
          have hbytes := byteLen_take_lt_iff (lt_length_of_idxOf? hopened)
            (lt_length_of_idxOf? hcolon)
          simp only [Option.map_some, hbytes, sliceFrom_byteLen_take]
          by_cases hlt : opened < colon
          · rw [if_pos hlt, if_pos hlt, findByte]
            cases hclose : (text.drop opened).idxOf? ']' with
            | none => rfl
            | some close => simp only [Option.map_some, byteLen_take_add]
          · rw [if_neg hlt, if_neg hlt, List.take_zero, byteLen_nil]

/-- Splitting at the colon that ends a host never cuts where there is nothing to cut. -/
theorem trySplitAtHostColon_eq (s : String) :
    trySplitAtHostColon s = some (splitAtHostColon s) := by
  simp only [trySplitAtHostColon, trySearchedFrom_eq, splitAtHostColon_def, Option.bind_eq_bind,
    Option.bind_some, sliceFrom_byteLen_take]
  rw [findByte]
  cases hcolon : (s.toList.drop (searchedFrom s.toList)).idxOf? ':' with
  | none => rfl
  | some colon =>
      -- the colon is one byte, so the slice after it starts at the character after it
      simp only [Option.map_some]
      rw [byteLen_take_add, byteLen_take_found rfl hcolon, sliceTo_byteLen_take,
        sliceFrom_byteLen_take]
      rfl

lemma tryScpLikeParts_eq (url : String) : tryScpLikeParts url = some (scpLikeParts url) := by
  unfold tryScpLikeParts scpLikeParts
  rw [trySplitAtHostColon_eq]
  split <;> rfl

lemma tryHostOf_eq (authority : String) : tryHostOf authority = some (hostOf authority) := by
  simp only [tryHostOf, trySplitAtHostColon_eq, Option.map_some]
  rfl

lemma tryHttpsEquivalent_eq (url : String) :
    tryHttpsEquivalent url = some (httpsEquivalent url) := by
  simp only [tryHttpsEquivalent, httpsEquivalent, tryScpLikeParts_eq, tryHostOf_eq, Option.map_some,
    Option.bind_eq_bind]
  cases stripPrefix "ssh://" url with
  | none =>
      dsimp only
      rw [Option.bind_some]
      cases scpLikeParts url <;> rfl
  | some rest =>
      dsimp only
      rw [Option.bind_some]
      cases splitOnce "/" rest <;> rfl

namespace RepoKey

lemma tryHostAndPath_eq (https : String) : tryHostAndPath https = some (hostAndPath https) := by
  cases hsplit : splitOnce "://" https with
  | none => simp only [tryHostAndPath, hostAndPath, hsplit]
  | some parts =>
      obtain ⟨scheme, rest⟩ := parts
      by_cases hfile : scheme = "file"
      · simp only [tryHostAndPath, hostAndPath, hsplit, hfile]
      · simp only [tryHostAndPath, hostAndPath, hsplit, tryHostOf_eq, Option.map_some]

/-- No URL ends the daemon that makes a key of it. -/
theorem tryFromRemoteUrl_eq (url : String) : tryFromRemoteUrl url = some (fromRemoteUrl url) := by
  simp only [tryFromRemoteUrl, fromRemoteUrl, tryHttpsEquivalent_eq, tryHostAndPath_eq,
    Option.bind_eq_bind, Option.bind_some]
  cases hostAndPath (httpsEquivalent url) <;> rfl

end RepoKey

end Cutting

/-! ## Joining to the root -/

/-- The names along a relative path, as a path is read: a `.` between slashes names nothing. -/
def pathComponents (text : String) : List String :=
  (fields '/' text).filter fun name => name ≠ "" ∧ name ≠ "."

/-- `Path::join`: an absolute path takes the place of what it is joined to. -/
def joinPath (dir : PathBuf) (text : String) : PathBuf :=
  if startsWith "/" text then pathComponents text else dir ++ pathComponents text

namespace RepoKey

/-- `jobsDir`, a join at a time. -/
def joinedJobsDir (key : RepoKey) (root : PathBuf) : PathBuf :=
  key.segments.foldl joinPath (joinPath root "jobs")

/-- `repoCache`, a join at a time; nothing for a key that has no segment. -/
def tryRepoCache (key : RepoKey) (root : PathBuf) : Option PathBuf :=
  key.segments.getLast?.map fun name =>
    joinPath (key.segments.dropLast.foldl joinPath (joinPath root "repos")) (name ++ ".git")

end RepoKey

/-- One name of a path, which a path that ends in it is the entry of. -/
def IsPlain (name : String) : Prop :=
  name ∉ ["", ".", ".."] ∧ '/' ∉ name.toList ∧ '\\' ∉ name.toList

section Joining

variable {name : String} {names : List String} {dir root : PathBuf} {url : String} {key : RepoKey}

lemma IsPlain.pathComponents_eq (h : IsPlain name) : pathComponents name = [name] := by
  obtain ⟨hname, hslash, -⟩ := h
  simp only [List.mem_cons, List.not_mem_nil, or_false, not_or] at hname
  rw [pathComponents, fields_of_notMem hslash]
  simp [hname.1, hname.2.1]

/-- Joining one name goes one entry down. -/
lemma IsPlain.joinPath_eq (h : IsPlain name) : joinPath dir name = dir ++ [name] := by
  have habsolute : startsWith "/" name = false := by
    rw [Bool.eq_false_iff]
    intro hstarts
    obtain ⟨rest, hrest⟩ := startsWith_iff.mp hstarts
    exact h.2.1 (by simp [hrest])
  rw [joinPath, habsolute, if_neg Bool.false_ne_true, h.pathComponents_eq]

lemma foldl_joinPath (h : ∀ name ∈ names, IsPlain name) :
    names.foldl joinPath dir = dir ++ names := by
  induction names generalizing dir with
  | nil => simp
  | cons name names ih =>
      rw [List.foldl_cons, (h name List.mem_cons_self).joinPath_eq,
        ih fun other hother => h other (List.mem_cons_of_mem name hother), List.append_assoc]
      rfl

/-- A segment of a key is one name of a path. -/
lemma isPlain_of_isKeyableSegment (h : isKeyableSegment name = true) : IsPlain name := by
  refine ⟨?_, RepoKey.slash_notMem_of_isKeyableSegment h, ?_⟩
  · simp only [isKeyableSegment, decide_eq_true_eq] at h
    exact h.1
  · intro hmem
    simp only [isKeyableSegment, decide_eq_true_eq, List.all_eq_true] at h
    exact absurd (h.2 '\\' hmem) (by decide)

/-- The name of a key's cache is one name of a path as well. -/
lemma IsPlain.append_git (h : IsPlain name) : IsPlain (name ++ ".git") := by
  refine ⟨?_, ?_, ?_⟩
  · intro hmem
    have hlength : (name ++ ".git").toList.length ≤ 2 := by
      simp only [List.mem_cons, List.not_mem_nil, or_false] at hmem
      rcases hmem with hname | hname | hname <;> simp [hname]
    rw [String.toList_append, List.length_append] at hlength
    exact absurd (le_trans (Nat.le_add_left _ _) hlength) (by decide)
  · rw [String.toList_append, List.mem_append, not_or]
    exact ⟨h.2.1, by decide⟩
  · rw [String.toList_append, List.mem_append, not_or]
    exact ⟨h.2.2, by decide⟩

namespace RepoKey

lemma isPlain_of_fromRemoteUrl (h : fromRemoteUrl url = some key) :
    ∀ name ∈ key.segments, IsPlain name :=
  fun name hname => isPlain_of_isKeyableSegment ((fromRemoteUrl_spec h).2 name hname)

lemma segments_ne_nil (h : fromRemoteUrl url = some key) : key.segments ≠ [] := by
  have hlength := (fromRemoteUrl_spec h).1
  exact List.length_pos_iff.mp (by omega)

/-- Joining a key's segments one at a time gives its jobs directory. -/
lemma joinedJobsDir_eq (h : fromRemoteUrl url = some key) (root : PathBuf) :
    key.joinedJobsDir root = key.jobsDir root := by
  have hjobs : joinPath root "jobs" = root ++ ["jobs"] :=
    IsPlain.joinPath_eq ⟨by decide, by decide, by decide⟩
  rw [joinedJobsDir, foldl_joinPath (isPlain_of_fromRemoteUrl h), hjobs, List.append_assoc]
  rfl

/-- A key has a last segment to name its cache by. -/
lemma tryRepoCache_eq (h : fromRemoteUrl url = some key) (root : PathBuf) :
    key.tryRepoCache root = some (key.repoCache root) := by
  have hplain := isPlain_of_fromRemoteUrl h
  have hrepos : joinPath root "repos" = root ++ ["repos"] :=
    IsPlain.joinPath_eq ⟨by decide, by decide, by decide⟩
  have hlast := List.getLast_mem (segments_ne_nil h)
  rw [tryRepoCache, repoCache, List.getLast?_eq_getLast_of_ne_nil (segments_ne_nil h),
    Option.map_some, Option.getD_some, (hplain _ hlast).append_git.joinPath_eq,
    foldl_joinPath fun name hname => hplain name (List.mem_of_mem_dropLast hname), hrepos]
  simp

/-- The names below `repos` of a key's cache. -/
def cacheNames (key : RepoKey) : List String :=
  key.segments.dropLast ++ [key.segments.getLast?.getD "" ++ ".git"]

lemma cacheNames_spec (h : fromRemoteUrl url = some key) :
    2 ≤ key.cacheNames.length ∧ ∀ name ∈ key.cacheNames, IsPlain name := by
  have hplain := isPlain_of_fromRemoteUrl h
  have hlength := (fromRemoteUrl_spec h).1
  refine ⟨by simp only [cacheNames, List.length_append, List.length_dropLast,
    List.length_singleton]; omega, fun name hname => ?_⟩
  rw [cacheNames, List.mem_append, List.mem_singleton] at hname
  rcases hname with hname | rfl
  · exact hplain name (List.mem_of_mem_dropLast hname)
  · rw [List.getLast?_eq_getLast_of_ne_nil (segments_ne_nil h), Option.getD_some]
    exact (hplain _ (List.getLast_mem (segments_ne_nil h))).append_git

lemma jobsDir_injective (root : PathBuf) :
    Function.Injective fun key : RepoKey => key.jobsDir root := by
  rintro ⟨segments⟩ ⟨segments'⟩ hsame
  simpa [jobsDir] using hsame

/-- Two keys of one cache have one name to a segment, so they are one. -/
lemma repoCache_injective {url' : String} {key' : RepoKey} (h : fromRemoteUrl url = some key)
    (h' : fromRemoteUrl url' = some key') (hsame : key.repoCache root = key'.repoCache root) :
    key = key' := by
  have hne := segments_ne_nil h
  have hne' := segments_ne_nil h'
  obtain ⟨segments⟩ := key
  obtain ⟨segments'⟩ := key'
  dsimp only at hne hne'
  simp only [repoCache, List.append_cancel_left_eq, List.cons.injEq, true_and,
    List.getLast?_eq_getLast_of_ne_nil hne, List.getLast?_eq_getLast_of_ne_nil hne',
    Option.getD_some] at hsame
  obtain ⟨hparents, hname⟩ := List.append_inj' hsame rfl
  have hlast := (String.append_left_inj ".git").mp (List.cons.inj hname).1
  rw [RepoKey.mk.injEq, ← List.dropLast_append_getLast hne, ← List.dropLast_append_getLast hne',
    hparents, hlast]

end RepoKey

end Joining

namespace RepoKey

/-- **A key never leaves the root.**  No URL makes the daemon cut outside it or inside a character.
The jobs directory of a key, and its cache, which there always is, are `jobs` and `repos` below the
root with two names or more below that, each of them one name of a path; and two keys have neither
in common. -/
theorem key_stays_under_root :
    (∀ url, tryFromRemoteUrl url = some (fromRemoteUrl url)) ∧
    ∀ (url : String) (key : RepoKey) (root : PathBuf), fromRemoteUrl url = some key →
      (∃ names, 2 ≤ names.length ∧ (∀ name ∈ names, IsPlain name) ∧
        key.joinedJobsDir root = root ++ "jobs" :: names) ∧
      (∃ names, 2 ≤ names.length ∧ (∀ name ∈ names, IsPlain name) ∧
        key.tryRepoCache root = some (root ++ "repos" :: names)) ∧
      ∀ (url' : String) (key' : RepoKey), fromRemoteUrl url' = some key' → key ≠ key' →
        key.joinedJobsDir root ≠ key'.joinedJobsDir root ∧
          key.tryRepoCache root ≠ key'.tryRepoCache root := by
  refine ⟨tryFromRemoteUrl_eq, fun url key root h => ⟨?_, ?_, fun url' key' h' hne => ⟨?_, ?_⟩⟩⟩
  · exact ⟨key.segments, (fromRemoteUrl_spec h).1, isPlain_of_fromRemoteUrl h,
      joinedJobsDir_eq h root⟩
  · obtain ⟨hlength, hplain⟩ := cacheNames_spec h
    exact ⟨key.cacheNames, hlength, hplain, tryRepoCache_eq h root⟩
  · rw [joinedJobsDir_eq h, joinedJobsDir_eq h']
    exact fun hsame => hne (jobsDir_injective root hsame)
  · rw [tryRepoCache_eq h, tryRepoCache_eq h']
    exact fun hsame => hne (repoCache_injective h h' (Option.some.inj hsame))

/-- Where the jobs and the cache of a repository on GitHub are. -/
theorem key_stays_under_root_github :
    ∃ names, 2 ≤ names.length ∧ (∀ name ∈ names, IsPlain name) ∧
      (RepoKey.mk ["github.com", "o", "r"]).joinedJobsDir ["state"] =
        ["state"] ++ "jobs" :: names :=
  (key_stays_under_root.2 "git@github.com:o/r.git" ⟨["github.com", "o", "r"]⟩ ["state"]
    (by decide)).1

end RepoKey

end AssemblyLine
