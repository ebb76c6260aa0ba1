import AssemblyLine.Daemon.Dispatch
import AssemblyLine.Framework.Text

/-!
# Where a remote URL points

A repository's key is made of its remote URL in its HTTPS form, so that the SSH and the HTTPS
spelling of one repository are one key.  `RepoKey.fromRemoteUrl_spec` is what the daemon relies on
when it joins a key's segments to a path: there are at least two, and each is one name.
-/

namespace AssemblyLine

/-- `s` split at the colon that ends a host: the first one outside a bracketed IPv6 literal. -/
def splitAtHostColon (s : String) : Option (String × String) :=
  let text := s.toList
  let searchedFrom :=
    match text.idxOf? '[', text.idxOf? ':' with
    | some opened, some colon =>
      if opened < colon then
        match (text.drop opened).idxOf? ']' with
        | some close => opened + close
        | none => opened
      else 0
    | _, _ => 0
  ((text.drop searchedFrom).idxOf? ':').map fun colon =>
    (String.ofList (text.take (searchedFrom + colon)),
      String.ofList (text.drop (searchedFrom + colon + 1)))

/-- The character `splitAtHostColon` searches from: the end of a bracketed literal that opens before
any colon. -/
def searchedFrom (text : List Char) : ℕ :=
  match text.idxOf? '[', text.idxOf? ':' with
  | some opened, some colon =>
    if opened < colon then
      match (text.drop opened).idxOf? ']' with
      | some close => opened + close
      | none => opened
    else 0
  | _, _ => 0

lemma splitAtHostColon_def (s : String) : splitAtHostColon s =
    ((s.toList.drop (searchedFrom s.toList)).idxOf? ':').map fun colon =>
      (String.ofList (s.toList.take (searchedFrom s.toList + colon)),
        String.ofList (s.toList.drop (searchedFrom s.toList + colon + 1))) := rfl

/-- git's scp-like `[user@]host:path`, split at the colon that ends the host. -/
def scpLikeParts (url : String) : Option (String × String) :=
  if (splitOnce "://" url).isSome then none
  else (splitAtHostColon url).filter fun parts => '/' ∉ parts.1.toList

/-- The host of an authority: without its user, and without its port. -/
def hostOf (authority : String) : String :=
  let host := (fields '@' authority).getLast?.getD authority
  match splitAtHostColon host with
  | some (host, _) => host
  | none => host

/-- The HTTPS form of an SSH remote URL; anything else comes back unchanged. -/
def httpsEquivalent (url : String) : String :=
  let authorityAndPath :=
    match stripPrefix "ssh://" url with
    | some rest => splitOnce "/" rest
    | none => scpLikeParts url
  match authorityAndPath with
  | some (authority, path) => "https://" ++ hostOf authority ++ "/" ++ trimStartChar '/' path
  | none => url

/-- Whether a remote URL names a path on this machine rather than a host. -/
def isPathOnThisMachine (url : String) : Bool :=
  match splitOnce "://" url with
  | some (scheme, _) => scheme = "file"
  | none => (scpLikeParts url).isNone

def isKeyableSegment (segment : String) : Bool :=
  segment ∉ ["", ".", ".."] ∧
    segment.toList.all fun c => c.isAlphanum ∨ c ∈ ['.', '_', '-']

namespace RepoKey

/-- The host a key is under, and the path below it. -/
def hostAndPath (https : String) : Option (String × String) :=
  match splitOnce "://" https with
  | some ("file", path) => some ("local", path)
  | some (_, rest) =>
    let (authority, path) := (splitOnce "/" rest).getD (rest, "")
    some (String.ofList ((hostOf authority).toList.map Char.toLower), path)
  | none => if startsWith "/" https then some ("local", https) else none

/-- The names along a path, without the `.git` a repository's may end in. -/
def pathSegments (path : String) : List String :=
  (fields '/' (trimEndText ".git" (trimEndChar '/' path))).filter (· ≠ "")

/-- A repository's key; `none` for a remote that names no directory a key could be made of. -/
def fromRemoteUrl (url : String) : Option RepoKey :=
  match hostAndPath (httpsEquivalent url) with
  | some (host, path) =>
    let segments := host :: pathSegments path
    if segments.length > 1 ∧ segments.all isKeyableSegment then some ⟨segments⟩ else none
  | none => none

/-- What a submit to a remote that has no key is told. -/
def unkeyable (url : String) : String :=
  s!"the remote '{url}' does not name a repository assembly-line can keep state for — " ++
    "use an absolute path, or a URL whose segments are letters, digits, '.', '_' and '-'"

/-- The daemon's bare repository for this remote, under `root`. -/
def repoCache (key : RepoKey) (root : PathBuf) : PathBuf :=
  root ++ "repos" :: (key.segments.dropLast ++ [key.segments.getLast?.getD "" ++ ".git"])

section Keys

variable {url segment : String} {key : RepoKey}

/-- A key has a host and a path, and each of its segments is one name of a path. -/
theorem fromRemoteUrl_spec (h : fromRemoteUrl url = some key) :
    1 < key.segments.length ∧ ∀ segment ∈ key.segments, isKeyableSegment segment = true := by
  rw [fromRemoteUrl] at h
  split at h
  · rw [Option.ite_none_right_eq_some, Option.some.injEq] at h
    obtain ⟨⟨hlength, hkeyable⟩, rfl⟩ := h
    exact ⟨hlength, fun segment hsegment => List.all_eq_true.mp hkeyable segment hsegment⟩
  · cases h

/-- A segment of a key is one name in a path. -/
lemma slash_notMem_of_isKeyableSegment (h : isKeyableSegment segment = true) :
    '/' ∉ segment.toList := by
  intro hmem
  simp only [isKeyableSegment, decide_eq_true_eq, List.all_eq_true] at h
  exact absurd (h.2 '/' hmem) (by decide)

end Keys

example : fromRemoteUrl "git@github.com:o/r.git" = some ⟨["github.com", "o", "r"]⟩ := by decide

end RepoKey

end AssemblyLine
