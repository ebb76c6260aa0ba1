import AssemblyLine.Daemon.RemoteNames

/-!
# Spellings of one repository, and different repositories

A key forgets how its URL was spelled: the scheme, the user, the port, a trailing `.git`, slashes
and the case of the host.  `spellings_share_key` is that no way to spell a repository is missed, and
`different_remotes_differ` that no two remotes are taken for one that way, in so far as the source
means to tell them apart: `different_remotes_share_key` has pairs that share a key all the same.
-/

namespace AssemblyLine

/-! ## Spellings -/

/-- How a remote URL begins: with a scheme, and then with a port or without, or in git's scp-like
form, whose path may begin with a slash. -/
inductive Form where
  | https (port : Option String)
  | ssh (port : Option String)
  | scp
  | scpAbsolute
deriving DecidableEq

def Form.port : Form → Option String
  | .https port => port
  | .ssh port => port
  | .scp => none
  | .scpAbsolute => none

/-- The characters that no user, host or port has: letters, digits, dots, dashes and underscores
are none of them. -/
def urlDelimiters : List Char := ['/', ':', '@', '[']

/-- One way to spell the URL of a repository on a host. -/
structure Spelling where
  form : Form
  user : Option String
  host : String
  path : List String
  dotGit : Bool
  slashes : ℕ
  host_chars : ∀ c ∈ urlDelimiters, c ∉ host.toList
  user_chars : ∀ name ∈ user, ∀ c ∈ urlDelimiters, c ∉ name.toList
  port_chars : ∀ port ∈ form.port, ∀ c ∈ urlDelimiters, c ∉ port.toList
  path_ne : path ≠ []
  path_names : ∀ name ∈ path, name ≠ "" ∧ '/' ∉ name.toList ∧ endsWith ".git" name = false

namespace Spelling

def authority (s : Spelling) : String :=
  (s.user.map (· ++ "@")).getD "" ++ (s.host ++ (s.form.port.map (":" ++ ·)).getD "")

def pathText (s : Spelling) : String :=
  "/".intercalate s.path ++ (if s.dotGit then ".git" else "") ++
    String.ofList (List.replicate s.slashes '/')

def url (s : Spelling) : String :=
  match s.form with
  | .https _ => "https://" ++ s.authority ++ "/" ++ s.pathText
  | .ssh _ => "ssh://" ++ s.authority ++ "/" ++ s.pathText
  | .scp => s.authority ++ ":" ++ s.pathText
  | .scpAbsolute => s.authority ++ ":/" ++ s.pathText

section Spellings

variable (s : Spelling)

lemma pathSegments_pathText : RepoKey.pathSegments s.pathText = s.path := by
  refine RepoKey.pathSegments_intercalate s.path_ne s.path_names ?_ s.slashes
  cases s.dotGit with
  | false => exact .inl rfl
  | true => exact .inr rfl

lemma isAuthority_authority : IsAuthority s.host s.authority := by
  refine ⟨fun c hmem hc => s.host_chars c ?_ hmem, _, _, rfl, ?_, ?_, ?_⟩
  · simp only [List.mem_cons, List.not_mem_nil, or_false] at hc
    rcases hc with rfl | rfl | rfl <;> decide
  · cases s.user with
    | none => exact .inl rfl
    | some user => exact .inr endsWith_append
  · cases s.form.port with
    | none => exact .inl rfl
    | some port => exact .inr (startsWith_iff.mpr ⟨port, rfl⟩)
  · cases hport : s.form.port with
    | none => exact List.not_mem_nil
    | some port =>
        have hat := s.port_chars port (by rw [hport]; rfl) '@' (by decide)
        simpa using hat

/-- No delimiter is in an authority but those of its user and its port. -/
lemma notMem_authority {c : Char} (hc : c ∈ urlDelimiters) (hat : c ≠ '@')
    (hcolon : c = ':' → s.form.port = none) : c ∉ s.authority.toList := by
  rw [authority, String.toList_append, String.toList_append, List.mem_append, List.mem_append,
    not_or, not_or]
  refine ⟨?_, s.host_chars c hc, ?_⟩
  · cases huser : s.user with
    | none => exact List.not_mem_nil
    | some user => simp [s.user_chars user (by rw [huser]; rfl) c hc, hat]
  · cases hport : s.form.port with
    | none => exact List.not_mem_nil
    | some port =>
        have hne : c ≠ ':' := fun hsame => by
          rw [hcolon hsame] at hport
          cases hport
        simp [s.port_chars port (by rw [hport]; rfl) c hc, hne]

lemma fromRemoteUrl_of_prefix {scheme : String} (h : splitOnce "://" scheme = none)
    (hfile : scheme ≠ "file") :
    RepoKey.fromRemoteUrl (scheme ++ ("://" ++ (s.authority ++ ("/" ++ s.pathText)))) =
      RepoKey.keyAt s.host s.pathText :=
  RepoKey.fromRemoteUrl_of_isAuthority h hfile s.isAuthority_authority
    (s.notMem_authority (by decide) (by decide) fun hsame => absurd hsame (by decide))

/-- A path's text begins with a character of its first name. -/
lemma pathText_head : ∀ rest : List Char, s.pathText.toList ≠ '/' :: rest := by
  intro rest hlist
  obtain ⟨first, more, hpath⟩ := List.exists_cons_of_ne_nil s.path_ne
  obtain ⟨hempty, hslash, -⟩ := s.path_names first (by rw [hpath]; exact List.mem_cons_self)
  obtain ⟨tail, hjoined⟩ : ∃ tail, "/".intercalate s.path = first ++ tail := by
    rw [hpath]
    cases more with
    | nil => exact ⟨"", by simp⟩
    | cons next more => exact ⟨"/" ++ "/".intercalate (next :: more), by simp [String.append_assoc]⟩
  rw [pathText, hjoined] at hlist
  cases hfirst : first.toList with
  | nil => exact hempty (String.toList_eq_nil_iff.mp hfirst)
  | cons c cs =>
      simp only [String.toList_append, hfirst, List.cons_append] at hlist
      rw [hfirst, (List.cons.inj hlist).1] at hslash
      exact hslash List.mem_cons_self

/-- Two slashes side by side are among the last of a path's text. -/
lemma eq_slash_of_pathText {front rest : List Char}
    (h : s.pathText.toList = front ++ '/' :: '/' :: rest) : ∀ c ∈ rest, c = '/' := by
  have hnone : "" ∉ fields '/' ("/".intercalate s.path ++ if s.dotGit then ".git" else "") := by
    refine RepoKey.empty_notMem_fields s.path_ne
      (fun name hname => ⟨(s.path_names name hname).1, (s.path_names name hname).2.1⟩) ?_
    cases s.dotGit <;> decide
  have hlist : ("/".intercalate s.path ++ if s.dotGit then ".git" else "").toList ++
      List.replicate s.slashes '/' = (front ++ ['/', '/']) ++ rest := by
    rw [pathText, String.toList_append, String.toList_ofList] at h
    simpa using h
  rcases List.append_eq_append_iff.mp hlist with ⟨more, -, hslashes⟩ | ⟨more, hinside, -⟩
  · intro c hc
    have hmem : c ∈ List.replicate s.slashes '/' := by
      rw [hslashes]
      exact List.mem_append_right more hc
    exact List.eq_of_mem_replicate hmem
  · -- between two slashes among the names there would be an empty one
    have hsplit : ("/".intercalate s.path ++ if s.dotGit then ".git" else "") =
        String.ofList front ++ String.singleton '/' ++
          ("" ++ String.singleton '/' ++ String.ofList more) := by
      rw [← String.toList_inj, hinside]
      simp
    rw [hsplit, fields_append_singleton, fields_append_singleton, List.mem_append,
      List.mem_append, not_or, not_or] at hnone
    exact absurd (by decide) hnone.2.1

/-- What looks like a scheme in the scp-like form ends with the path's last name. -/
lemma exists_of_splitOnce_scheme {lead front rest : String} (hport : s.form.port = none)
    (hlead : lead = "" ∨ lead = "/")
    (h : splitOnce "://" (s.authority ++ (":" ++ (lead ++ s.pathText))) = some (front, rest)) :
    ':' ∈ front.toList ∧
      ∃ before, s.pathText.toList = before ++ ':' :: '/' :: '/' :: rest.toList := by
  have hlist : (s.authority.toList ++ ':' :: lead.toList) ++ s.pathText.toList =
      front.toList ++ ':' :: '/' :: '/' :: rest.toList := by
    simpa using congrArg String.toList (splitOnce_spec h)
  rcases List.append_eq_append_iff.mp hlist with ⟨before, hfront, hpath⟩ | ⟨more, hfront, hmore⟩
  · exact ⟨by simp [hfront], before, hpath⟩
  · cases more with
    | nil =>
        rw [List.append_nil] at hfront
        exact ⟨by simp [← hfront], [], hmore.symm⟩
    | cons c more =>
        -- the only colon before the path is followed by no two slashes
        obtain ⟨rfl, htail⟩ := List.cons.inj hmore
        have hcolon : ':' ∉ s.authority.toList :=
          s.notMem_authority (by decide) (by decide) fun _ => hport
        have hcolon' : ':' ∉ lead.toList := by rcases hlead with rfl | rfl <;> decide
        obtain ⟨-, -, rfl⟩ := (List.append_cons_inj_of_notMem hcolon hcolon').mp hfront
        rcases hlead with rfl | rfl
        · exact absurd htail.symm (s.pathText_head _)
        · exact absurd (List.cons.inj htail).2.symm (s.pathText_head _)

/-- There is no key of a path with a colon on it. -/
lemma keyAt_eq_none (h : ':' ∈ s.pathText.toList) : RepoKey.keyAt s.host s.pathText = none := by
  rw [Option.eq_none_iff_forall_not_mem]
  exact fun key hkey => RepoKey.colon_notMem_of_keyAt (Option.mem_def.mp hkey) h

/-- The scp-like form is taken apart at its first colon, unless a name and the slashes after it look
like a scheme; then there is no key, as there is none of a name with a colon in it. -/
lemma fromRemoteUrl_of_scp (hport : s.form.port = none) {lead : String}
    (hlead : lead = "" ∨ lead = "/") :
    RepoKey.fromRemoteUrl (s.authority ++ (":" ++ (lead ++ s.pathText))) =
      RepoKey.keyAt s.host s.pathText := by
  have hnot : ∀ c ∈ ['/', ':', '['], c ∉ s.authority.toList := by
    intro c hc
    simp only [List.mem_cons, List.not_mem_nil, or_false] at hc
    rcases hc with rfl | rfl | rfl <;>
      exact s.notMem_authority (by decide) (by decide) fun _ => hport
  have hsplit := splitAtHostColon_append (hnot ':' (by simp)) (hnot '[' (by simp))
    (lead ++ s.pathText)
  cases hscheme : splitOnce "://" (s.authority ++ (":" ++ (lead ++ s.pathText))) with
  | none =>
      have hparts := RepoKey.scpLikeParts_eq_some_iff.mpr ⟨hscheme, hsplit, hnot '/' (by simp)⟩
      rw [RepoKey.fromRemoteUrl_of_scp hparts, s.isAuthority_authority.hostOf_eq,
        s.isAuthority_authority.self.hostOf_eq]
      refine RepoKey.keyAt_congr ?_
      rcases hlead with rfl | rfl
      · rw [String.empty_append]
      · exact RepoKey.pathSegments_slash s.pathText
  | some parts =>
      obtain ⟨front, rest⟩ := parts
      obtain ⟨hcolon, before, hpath⟩ := s.exists_of_splitOnce_scheme hport hlead hscheme
      have hfile : front ≠ "file" := by
        rintro rfl
        exact absurd hcolon (by decide)
      have hfront := splitOnce_front (by decide) hscheme
      have hdouble : s.pathText.toList = (before ++ [':']) ++ '/' :: '/' :: rest.toList := by
        rw [hpath, List.append_assoc]
        rfl
      rw [splitOnce_spec hscheme, String.append_assoc, s.keyAt_eq_none (by simp [hpath])]
      exact RepoKey.fromRemoteUrl_of_slashes hfront hfile (s.eq_slash_of_pathText hdouble)

/-- However a repository is spelled, its key is that of its path on its host. -/
lemma fromRemoteUrl_url : RepoKey.fromRemoteUrl s.url = RepoKey.keyAt s.host s.pathText := by
  rw [url]
  cases hform : s.form with
  | https port =>
      rw [← s.fromRemoteUrl_of_prefix (show splitOnce "://" "https" = none by decide) (by decide)]
      rw [show "https://" = "https" ++ "://" from rfl]
      simp only [String.append_assoc]
  | ssh port =>
      rw [← s.fromRemoteUrl_of_prefix (show splitOnce "://" "ssh" = none by decide) (by decide)]
      rw [show "ssh://" = "ssh" ++ "://" from rfl]
      simp only [String.append_assoc]
  | scp =>
      rw [← s.fromRemoteUrl_of_scp (by rw [hform]; rfl) (.inl rfl), String.empty_append,
        ← String.append_assoc]
  | scpAbsolute =>
      rw [← s.fromRemoteUrl_of_scp (by rw [hform]; rfl) (.inr rfl)]
      rw [show ":/" = ":" ++ "/" from rfl]
      simp only [String.append_assoc]

end Spellings

end Spelling

/-- **Every spelling of one repository has one key.**  However the URLs of one path on one host are
spelled, the case of the host included, they have one key or none of them has. -/
theorem spellings_share_key (s t : Spelling)
    (hhost : toAsciiLowercase s.host = toAsciiLowercase t.host) (hpath : s.path = t.path) :
    RepoKey.fromRemoteUrl s.url = RepoKey.fromRemoteUrl t.url := by
  rw [s.fromRemoteUrl_url, t.fromRemoteUrl_url, RepoKey.keyAt, RepoKey.keyAt,
    s.pathSegments_pathText, t.pathSegments_pathText, hhost, hpath]

namespace Spelling

/-- `git@GitHub.com:/o/r.git/`. -/
def scpGitHub : Spelling :=
  ⟨.scpAbsolute, some "git", "GitHub.com", ["o", "r"], true, 1, by simp [urlDelimiters],
    by simp [urlDelimiters], by simp [Form.port], by decide, by decide +kernel⟩

/-- `https://github.com:443/o/r`. -/
def httpsGitHub : Spelling :=
  ⟨.https (some "443"), none, "github.com", ["o", "r"], false, 0, by simp [urlDelimiters],
    by simp, by simp [Form.port, urlDelimiters], by decide, by decide +kernel⟩

end Spelling

/-- Two spellings of a repository on GitHub. -/
theorem spellings_share_key_github :
    RepoKey.fromRemoteUrl "git@GitHub.com:/o/r.git/" =
      RepoKey.fromRemoteUrl "https://github.com:443/o/r" :=
  spellings_share_key Spelling.scpGitHub Spelling.httpsGitHub (by decide) rfl

namespace RepoKey

/-! ## Different remotes -/

/-- A port is no part of a key.  Nor is a second `.git`, and a host may be called `local`. -/
theorem different_remotes_share_key :
    (fromRemoteUrl "https://git.example:8443/r" = some ⟨["git.example", "r"]⟩ ∧
      fromRemoteUrl "https://git.example:9443/r" = some ⟨["git.example", "r"]⟩) ∧
    (isPathOnThisMachine "/srv/r" = true ∧ isPathOnThisMachine "https://local/srv/r" = false ∧
      fromRemoteUrl "/srv/r" = some ⟨["local", "srv", "r"]⟩ ∧
      fromRemoteUrl "https://local/srv/r" = some ⟨["local", "srv", "r"]⟩) ∧
    fromRemoteUrl "https://git.example/r.git" = some ⟨["git.example", "r"]⟩ ∧
      fromRemoteUrl "https://git.example/r.git.git" = some ⟨["git.example", "r"]⟩ := by
  decide +kernel

/-- **Different remotes have different keys.**  Every URL that has a key and is no path on this
machine names a host and a path on it.  The key of a path on this machine is not that of a URL which
names a host other than `local`, and two URLs that name hosts have different keys when the hosts are
different but for case, or the names along the paths are, without the slashes at their ends and
every `.git` there. -/
theorem different_remotes_differ :
    (∀ (url : String) (key : RepoKey), fromRemoteUrl url = some key →
      isPathOnThisMachine url = false →
        ∃ host path bare, Names url host path ∧ Bare path bare) ∧
    ∀ (url url' : String) (key key' : RepoKey), fromRemoteUrl url = some key →
      fromRemoteUrl url' = some key' →
      (isPathOnThisMachine url = true → ∀ host path, Names url' host path →
        toAsciiLowercase host ≠ "local" → key ≠ key') ∧
      ∀ host path bare host' path' bare', Names url host path → Names url' host' path' →
        Bare path bare → Bare path' bare' →
        (toAsciiLowercase host ≠ toAsciiLowercase host' ∨ pathNames bare ≠ pathNames bare') →
          key ≠ key' := by
  refine ⟨fun url key h hhost => ?_,
    fun url url' key key' h h' => ⟨fun hlocal host path hnames hhost => ?_,
      fun host path bare host' path' bare' hnames hnames' hbare hbare' hdiffer => ?_⟩⟩
  · obtain ⟨host, path, hnames⟩ := exists_names h hhost
    obtain ⟨bare, hbare⟩ := exists_bare path
    exact ⟨host, path, bare, hnames, hbare⟩
  · rintro rfl
    have hhead := head_of_isPathOnThisMachine h hlocal
    rw [segments_of_names h' hnames, List.head?_cons, Option.some.injEq] at hhead
    exact hhost hhead
  · rintro rfl
    have hsegments := (segments_of_names h hnames).symm.trans (segments_of_names h' hnames')
    obtain ⟨hhost, hpath⟩ := List.cons.inj hsegments
    rcases hdiffer with hne | hne
    · exact hne hhost
    · rw [pathSegments_eq_pathNames hbare, pathSegments_eq_pathNames hbare'] at hpath
      exact hne hpath

/-- Two repositories of one host, and what each URL names. -/
theorem different_remotes_differ_example :
    RepoKey.mk ["git.example", "r"] ≠ ⟨["git.example", "s"]⟩ := by
  have names : ∀ path, Names ("https://git.example/" ++ path) "git.example" path := by
    intro path
    have hhost : IsAuthority "git.example" "git.example" :=
      ⟨by simp, "", "", by simp, .inl rfl, .inl rfl, by simp⟩
    refine ⟨"git.example", hhost, by decide +kernel, .inl ⟨"https", by decide, by decide, ?_⟩⟩
    have hurl : "https://git.example/" = "https" ++ ("://" ++ ("git.example" ++ "/")) := by
      decide +kernel
    rw [hurl]
    simp only [String.append_assoc]
  exact (different_remotes_differ.2 "https://git.example/r.git.git/" "https://git.example/s" _ _
    (by decide +kernel) (by decide +kernel)).2 "git.example" "r.git.git/" "r" "git.example" "s" "s"
    (names "r.git.git/") (names "s")
    ⟨by decide +kernel, 2, 1, by decide +kernel, by decide +kernel⟩
    ⟨by decide +kernel, 0, 0, by decide +kernel, by decide +kernel⟩ (.inr (by decide +kernel))

end RepoKey

end AssemblyLine
