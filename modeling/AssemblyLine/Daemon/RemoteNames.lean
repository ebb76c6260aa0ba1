import AssemblyLine.Daemon.RepoKey

/-!
# What a remote URL names

A key is made of a URL in three steps, each with its own way of finding the host: git's scp-like
form, the HTTPS form of an SSH URL, and the splitting of that.  `Names` says independently of them
which host a URL reaches and what path on it.

`exists_names` is that every URL with a key that is no path on this machine names a host, and
`segments_of_names` that its key is made of the host and the names along the path alone.
-/

namespace AssemblyLine

/-! ## Hosts -/

/-- An authority is a host, with a user before it and a port after it or without. -/
def IsAuthority (host authority : String) : Prop :=
  (∀ c ∈ host.toList, c ∉ ['@', ':', '[']) ∧
    ∃ user port, authority = user ++ (host ++ port) ∧
      (user = "" ∨ endsWith "@" user = true) ∧ (port = "" ∨ startsWith ":" port = true) ∧
      '@' ∉ port.toList

section Hosts

variable {s front back host authority : String}

lemma splitAtHostColon_of_notMem (h : ':' ∉ s.toList) : splitAtHostColon s = none := by
  rw [splitAtHostColon_def, Option.map_eq_none_iff, List.idxOf?_eq_none_iff]
  exact fun hmem => h (List.mem_of_mem_drop hmem)

/-- A host that opens no bracket ends at the first colon. -/
lemma splitAtHostColon_append (hcolon : ':' ∉ front.toList) (hbracket : '[' ∉ front.toList)
    (back : String) : splitAtHostColon (front ++ (":" ++ back)) = some (front, back) := by
  have hlist : (front ++ (":" ++ back)).toList = front.toList ++ ':' :: back.toList := by simp
  have hplace : (front ++ (":" ++ back)).toList.idxOf? ':' = some front.toList.length :=
    idxOf?_eq_some_iff_append.mpr ⟨front.toList, back.toList, hlist, hcolon, rfl⟩
  have hstart : searchedFrom (front ++ (":" ++ back)).toList = 0 := by
    unfold searchedFrom
    rw [hplace]
    split
    · rename_i opened colon hopened hcolon'
      obtain rfl := Option.some.inj hcolon'
      obtain ⟨before, after, hsplit, -, rfl⟩ := idxOf?_eq_some_iff_append.mp hopened
      rw [if_neg]
      intro hlt
      have hbegins : before ++ ['['] <+: front.toList :=
        List.prefix_of_prefix_length_le ⟨after, by rw [hsplit]; simp⟩
          ⟨':' :: back.toList, hlist.symm⟩ (by rwa [List.length_append, List.length_singleton])
      exact hbracket (hbegins.subset (by simp))
    · rfl
  rw [splitAtHostColon_def, hstart, List.drop_zero, hplace, Option.map_some, Nat.zero_add, hlist,
    List.take_left, List.drop_length_add_append]
  simp

/-- What is split at a colon is put together with it. -/
lemma splitAtHostColon_spec (h : splitAtHostColon s = some (front, back)) :
    s = front ++ (":" ++ back) := by
  rw [splitAtHostColon_def] at h
  obtain ⟨colon, hcolon, hparts⟩ := Option.map_eq_some_iff.mp h
  obtain ⟨rfl, rfl⟩ := Prod.mk.inj hparts
  obtain ⟨hlt, hat, -⟩ := List.idxOf?_eq_some_iff.mp hcolon
  rw [List.length_drop] at hlt
  rw [List.getElem_drop] at hat
  rw [← String.toList_inj]
  have hsplit := List.take_append_drop (searchedFrom s.toList + colon) s.toList
  rw [List.drop_eq_getElem_cons (by omega), hat] at hsplit
  simpa using hsplit.symm

/-- The host of an authority is the one it names. -/
lemma IsAuthority.hostOf_eq (h : IsAuthority host authority) : hostOf authority = host := by
  obtain ⟨hhost, user, port, rfl, huser, hport, hat⟩ := h
  have hnot : ∀ c ∈ ['@', ':', '['], c ∉ host.toList := fun c hc hmem => hhost c hmem hc
  have hlast : (fields '@' (user ++ (host ++ port))).getLast? = some (host ++ port) := by
    refine getLast?_fields_append ?_ huser
    rw [String.toList_append, List.mem_append, not_or]
    exact ⟨hnot '@' (by simp), hat⟩
  rw [hostOf, hlast, Option.getD_some]
  rcases hport with rfl | hcolon
  · rw [String.append_empty, splitAtHostColon_of_notMem (hnot ':' (by simp))]
  · obtain ⟨rest, rfl⟩ := startsWith_iff.mp hcolon
    rw [splitAtHostColon_append (hnot ':' (by simp)) (hnot '[' (by simp))]

/-- A host is an authority of itself. -/
lemma IsAuthority.self (h : IsAuthority host authority) : IsAuthority host host :=
  ⟨h.1, "", "", by simp, .inl rfl, .inl rfl, by simp⟩

/-- An authority is made of the host the source finds in it, what it takes for a user, and what it
takes for a port. -/
lemma hostOf_spec (authority : String) :
    ∃ user port, authority = user ++ (hostOf authority ++ port) ∧
      (user = "" ∨ endsWith "@" user = true) ∧ (port = "" ∨ startsWith ":" port = true) ∧
      '@' ∉ port.toList ∧ '@' ∉ (hostOf authority).toList := by
  obtain ⟨user, last, rfl, hat, huser⟩ := exists_last_field '@' authority
  rw [hostOf, getLast?_fields_append hat huser, Option.getD_some]
  cases hsplit : splitAtHostColon last with
  | none => exact ⟨user, "", by rw [String.append_empty], huser, .inl rfl, by simp, hat⟩
  | some parts =>
      obtain ⟨host, port⟩ := parts
      have hlast := splitAtHostColon_spec hsplit
      rw [hlast, String.toList_append, List.mem_append, not_or] at hat
      exact ⟨user, ":" ++ port, by rw [← hlast], huser,
        .inr (startsWith_iff.mpr ⟨port, rfl⟩), hat.2, hat.1⟩

lemma isAuthority_hostOf (h : ∀ c ∈ (hostOf authority).toList, c ∉ ['@', ':', '[']) :
    IsAuthority (hostOf authority) authority := by
  obtain ⟨user, port, hsplit, huser, hport, hat, -⟩ := hostOf_spec authority
  exact ⟨h, user, port, hsplit, huser, hport, hat⟩

lemma notMem_hostOf {c : Char} (h : c ∉ authority.toList) : c ∉ (hostOf authority).toList := by
  obtain ⟨user, port, hsplit, -⟩ := hostOf_spec authority
  intro hmem
  rw [hsplit] at h
  exact h (by simp [hmem])

/-- A host inside the host the source finds is named by the authority itself. -/
lemma IsAuthority.of_hostOf (h : IsAuthority host (hostOf authority)) :
    IsAuthority host authority := by
  obtain ⟨hhost, inner, port, hinner, huser, hport, hat⟩ := h
  obtain ⟨user, rest, hsplit, huser', hrest, hatRest, hatHost⟩ := hostOf_spec authority
  have hnone : inner = "" := by
    rcases huser with hempty | hends
    · exact hempty
    · obtain ⟨name, rfl⟩ := endsWith_iff.mp hends
      rw [hinner] at hatHost
      exact absurd (by simp) hatHost
  rw [hinner, hnone, String.empty_append, String.append_assoc] at hsplit
  refine ⟨hhost, user, port ++ rest, hsplit, huser', ?_, by simp [hat, hatRest]⟩
  rcases hport with rfl | hcolon
  · rwa [String.empty_append]
  · obtain ⟨number, rfl⟩ := startsWith_iff.mp hcolon
    exact .inr (startsWith_iff.mpr ⟨number ++ rest, String.append_assoc⟩)

end Hosts

/-! ## Paths -/

/-- `str::to_ascii_lowercase`. -/
def toAsciiLowercase (text : String) : String := String.ofList (text.toList.map Char.toLower)

/-- So many `.git`, one after the other. -/
def dotGits : ℕ → String
  | 0 => ""
  | n + 1 => dotGits n ++ ".git"

namespace RepoKey

/-- What a path is without the slashes at its end and every `.git` before them. -/
def Bare (path bare : String) : Prop :=
  endsWith ".git" bare = false ∧ ∃ gits slashes,
    path = bare ++ dotGits gits ++ String.ofList (List.replicate slashes '/') ∧
      (bare ++ dotGits gits).toList.getLast? ≠ some '/'

/-- The names along a path. -/
def pathNames (path : String) : List String := (fields '/' path).filter (· ≠ "")

section Paths

variable {path : String} {names : List String}

/-- `.git` is taken off the end of a path below a slash as it is without the slash. -/
lemma trimEndText_slash (text : String) :
    trimEndText ".git" ("/" ++ text) = "/" ++ trimEndText ".git" text := by
  induction hn : text.length using Nat.strong_induction_on generalizing text with
  | _ n ih =>
      cases hstrip : stripSuffix ".git" text with
      | some rest =>
          obtain rfl := stripSuffix_eq_some_iff.mp hstrip
          rw [← String.append_assoc, trimEndText_append (by decide), trimEndText_append (by decide)]
          refine ih rest.length ?_ rest rfl
          rw [← hn, String.length_append]
          exact Nat.lt_add_of_pos_right (by decide)
      | none =>
          have hnone := stripSuffix_eq_none_iff.mp hstrip
          rw [trimEndText_of_not_endsWith (endsWith_eq_false_iff.mpr hnone)]
          refine trimEndText_of_not_endsWith (endsWith_eq_false_iff.mpr fun rest hrest => ?_)
          have hsplit := congrArg String.toList hrest
          rw [String.toList_append, String.toList_append] at hsplit
          -- the slash is before the `.git`, which does not begin with one
          cases hlist : rest.toList with
          | nil =>
              rw [hlist] at hsplit
              exact absurd (List.cons.inj hsplit).1 (by decide)
          | cons c more =>
              rw [hlist] at hsplit
              have htail : text.toList = more ++ ".git".toList := (List.cons.inj hsplit).2
              refine hnone (String.ofList more) ?_
              rw [← String.toList_inj, htail]
              simp

/-- A slash before a path is before no name. -/
lemma pathSegments_slash (text : String) : pathSegments ("/" ++ text) = pathSegments text := by
  have hlist : ("/" ++ text).toList.reverse = text.toList.reverse ++ ['/'] := by simp
  have hslash : ['/'].dropWhile (fun c => decide (c = '/')) = [] := rfl
  rw [pathSegments, pathSegments, trimEndChar, trimEndChar, hlist, List.dropWhile_append]
  cases hrest : text.toList.reverse.dropWhile (fun c => decide (c = '/')) with
  | nil => rw [if_pos List.isEmpty_nil, hslash]
  | cons c rest =>
      have hjoined : String.ofList (c :: rest ++ ['/']).reverse =
          "/" ++ String.ofList (c :: rest).reverse := by
        rw [← String.toList_inj]
        simp
      have hfields : ∀ text, fields '/' ("/" ++ text) = "" :: fields '/' text := by
        intro text
        have hfirst : '/' ∉ "".toList := List.not_mem_nil
        exact (congrArg (fields '/') String.empty_append.symm).trans (fields_append hfirst text)
      rw [if_neg (by simp), hjoined, trimEndText_slash, hfields,
        List.filter_cons_of_neg (by simp)]

lemma pathSegments_trimStartChar (path : String) :
    pathSegments (trimStartChar '/' path) = pathSegments path := by
  have htrim : ∀ text : List Char, pathSegments (String.ofList (text.dropWhile (· = '/'))) =
      pathSegments (String.ofList text) := by
    intro text
    induction text with
    | nil => rfl
    | cons c text ih =>
        by_cases hslash : c = '/'
        · have hcons : String.ofList ('/' :: text) = "/" ++ String.ofList text := by
            rw [← String.toList_inj]
            simp
          rw [hslash, List.dropWhile_cons_of_pos (by simp), ih, hcons, pathSegments_slash]
        · rw [List.dropWhile_cons_of_neg (by simpa using hslash)]
  rw [trimStartChar, htrim, String.ofList_toList]

lemma exists_bare (path : String) : ∃ bare, Bare path bare := by
  have hgits : ∀ text : String, ∃ bare gits, endsWith ".git" bare = false ∧
      text = bare ++ dotGits gits := by
    intro text
    induction hn : text.length using Nat.strong_induction_on generalizing text with
    | _ n ih =>
        cases hends : endsWith ".git" text with
        | false => exact ⟨text, 0, hends, by rw [dotGits, String.append_empty]⟩
        | true =>
            obtain ⟨rest, rfl⟩ := endsWith_iff.mp hends
            have hshorter : rest.length < n := by
              rw [← hn, String.length_append]
              exact Nat.lt_add_of_pos_right (by decide)
            obtain ⟨bare, gits, hbare, hrest⟩ := ih _ hshorter rest rfl
            exact ⟨bare, gits + 1, hbare, by rw [dotGits, ← String.append_assoc, ← hrest]⟩
  obtain ⟨hlast, slashes, hpath⟩ := trimEndChar_spec '/' path
  obtain ⟨bare, gits, hbare, htrimmed⟩ := hgits (trimEndChar '/' path)
  rw [htrimmed] at hpath hlast
  exact ⟨bare, hbare, gits, slashes, hpath, hlast⟩

/-- A path's segments are the names along what is left of it. -/
lemma pathSegments_eq_pathNames {bare : String} (h : Bare path bare) :
    pathSegments path = pathNames bare := by
  obtain ⟨hbare, gits, slashes, rfl, hlast⟩ := h
  have hgits : ∀ n, trimEndText ".git" (bare ++ dotGits n) = bare := by
    intro n
    induction n with
    | zero => rw [dotGits, String.append_empty, trimEndText_of_not_endsWith hbare]
    | succ n ih => rw [dotGits, ← String.append_assoc, trimEndText_append (by decide), ih]
  rw [pathSegments, trimEndChar_append hlast, hgits, pathNames]

/-- A text whose last name does not end in `.git` does not end in it. -/
lemma endsWith_git_append {front last : String}
    (hfront : front = "" ∨ endsWith "/" front = true) (hlast : endsWith ".git" last = false) :
    endsWith ".git" (front ++ last) = false := by
  rw [endsWith_eq_false_iff] at hlast ⊢
  intro rest hrest
  have hnot : ∀ before : List Char, last.toList ≠ before ++ ".git".toList := by
    intro before hbefore
    refine hlast (String.ofList before) ?_
    rw [← String.toList_inj, hbefore]
    simp
  have hsplit := congrArg String.toList hrest
  rw [String.toList_append, String.toList_append, List.append_eq_append_iff] at hsplit
  rcases hsplit with ⟨before, -, hbefore⟩ | ⟨more, hmore, hgit⟩
  · exact hnot before hbefore
  · rcases hfront with rfl | hends
    · obtain ⟨-, rfl⟩ := List.append_eq_nil_iff.mp hmore.symm
      exact hnot [] hgit.symm
    · -- the front ends in a slash, and `.git` has none
      obtain ⟨name, rfl⟩ := endsWith_iff.mp hends
      rw [String.toList_append] at hmore
      rcases List.eq_nil_or_concat' more with rfl | ⟨init, c, rfl⟩
      · exact hnot [] hgit.symm
      · rw [← List.append_assoc] at hmore
        obtain ⟨-, hc⟩ := List.append_inj' hmore rfl
        have hmem : c ∈ ".git".toList := by
          rw [hgit]
          simp
        rw [← (List.cons.inj hc).1] at hmem
        exact absurd hmem (by decide)

/-- No name of a path that is spelled from names is empty, whatever its last name ends in. -/
lemma empty_notMem_fields (hne : names ≠ [])
    (hnames : ∀ name ∈ names, name ≠ "" ∧ '/' ∉ name.toList) {suffix : String}
    (hsuffix : '/' ∉ suffix.toList) : "" ∉ fields '/' ("/".intercalate names ++ suffix) := by
  have hfields : fields '/' ("/".intercalate names) = names :=
    fields_intercalate hne fun name hname => (hnames name hname).2
  obtain ⟨front, last, hjoined, hslash, hfront⟩ := exists_last_field '/' ("/".intercalate names)
  have hlast : last ≠ "" := by
    have hmem := List.mem_of_getLast? (getLast?_fields_append hslash hfront)
    rw [← hjoined, hfields] at hmem
    exact (hnames last hmem).1
  have hsuffixed : '/' ∉ (last ++ suffix).toList := by
    rw [String.toList_append, List.mem_append, not_or]
    exact ⟨hslash, hsuffix⟩
  rcases hfront with rfl | hends
  · rw [hjoined, String.empty_append, fields_of_notMem hsuffixed, List.mem_singleton]
    exact fun hempty => hlast (String.append_eq_empty_iff.mp hempty.symm).1
  · obtain ⟨before, rfl⟩ := endsWith_iff.mp hends
    rw [hjoined, fields_append_singleton, fields_of_notMem hslash] at hfields
    rw [hjoined, String.append_assoc, fields_append_singleton, fields_of_notMem hsuffixed,
      List.mem_append, List.mem_singleton]
    rintro (hmem | hempty)
    · exact (hnames "" (hfields ▸ List.mem_append_left _ hmem)).1 rfl
    · exact hlast (String.append_eq_empty_iff.mp hempty.symm).1

/-- A path that is spelled from names has these names, however it ends. -/
lemma pathSegments_intercalate (hne : names ≠ [])
    (hnames : ∀ name ∈ names, name ≠ "" ∧ '/' ∉ name.toList ∧ endsWith ".git" name = false)
    {suffix : String} (hsuffix : suffix = "" ∨ suffix = ".git") (slashes : ℕ) :
    pathSegments ("/".intercalate names ++ suffix ++ String.ofList (List.replicate slashes '/')) =
      names := by
  have hfields : fields '/' ("/".intercalate names) = names :=
    fields_intercalate hne fun name hname => (hnames name hname).2.1
  -- what is joined ends as its last name does
  obtain ⟨front, last, hjoined, hslash, hfront⟩ := exists_last_field '/' ("/".intercalate names)
  have hmem : last ∈ names := by
    have hlast := getLast?_fields_append hslash hfront
    rw [← hjoined, hfields] at hlast
    exact List.mem_of_getLast? hlast
  obtain ⟨hempty, -, hdotGit⟩ := hnames last hmem
  have hkept : endsWith ".git" ("/".intercalate names) = false := by
    rw [hjoined]
    exact endsWith_git_append hfront hdotGit
  have hend : ("/".intercalate names ++ suffix).toList.getLast? ≠ some '/' := by
    rw [hjoined, String.toList_append]
    rcases hsuffix with rfl | rfl
    · have hlast : last.toList ≠ [] := fun hnil => hempty (String.toList_eq_nil_iff.mp hnil)
      intro hsome
      rw [String.toList_append, String.toList_empty, List.append_nil,
        List.getLast?_append_of_ne_nil _ hlast] at hsome
      exact hslash (List.mem_of_getLast? hsome)
    · rw [List.getLast?_append_of_ne_nil _ (by decide)]
      decide
  have htrim : trimEndText ".git" ("/".intercalate names ++ suffix) = "/".intercalate names := by
    rcases hsuffix with rfl | rfl
    · rw [String.append_empty, trimEndText_of_not_endsWith hkept]
    · rw [trimEndText_append (by decide), trimEndText_of_not_endsWith hkept]
  rw [pathSegments, trimEndChar_append hend, htrim, hfields, List.filter_eq_self]
  exact fun name hname => by simpa using (hnames name hname).1

end Paths

end RepoKey

/-! ## What a URL names -/

/-- The host a remote URL reaches, and the path on it: after a scheme, or in git's scp-like form. -/
def Names (url host path : String) : Prop :=
  ∃ authority, IsAuthority host authority ∧ '/' ∉ authority.toList ∧
    ((∃ scheme, splitOnce "://" scheme = none ∧ scheme ≠ "file" ∧
        url = scheme ++ ("://" ++ (authority ++ ("/" ++ path)))) ∨
      (splitOnce "://" url = none ∧ ':' ∉ path.toList ∧ url = authority ++ (":" ++ path)))

namespace RepoKey

/-- The key of a path on a host, when there is one. -/
def keyAt (host path : String) : Option RepoKey :=
  let segments := toAsciiLowercase host :: pathSegments path
  if segments.length > 1 ∧ segments.all isKeyableSegment then some ⟨segments⟩ else none

section Urls

variable {url scheme authority host path rest : String} {key : RepoKey}

lemma splitOnce_scheme (h : splitOnce "://" scheme = none) (rest : String) :
    splitOnce "://" (scheme ++ ("://" ++ rest)) = some (scheme, rest) := by
  have hchars : splitFirst (':' :: ['/', '/']) scheme.toList = none := Option.map_eq_none_iff.mp h
  have hlist : (scheme ++ ("://" ++ rest)).toList =
      scheme.toList ++ (':' :: ['/', '/'] ++ rest.toList) := by simp
  have hsplit := splitFirst_append (by decide) hchars rest.toList
  rw [splitOnce, hlist]
  simpa using
    congrArg (Option.map fun parts => (String.ofList parts.1, String.ofList parts.2)) hsplit

lemma hostAndPath_of_scheme (h : splitOnce "://" scheme = none) (hfile : scheme ≠ "file") :
    hostAndPath (scheme ++ ("://" ++ rest)) =
      some (toAsciiLowercase (hostOf ((splitOnce "/" rest).getD (rest, "")).1),
        ((splitOnce "/" rest).getD (rest, "")).2) := by
  rw [hostAndPath, splitOnce_scheme h]
  split
  · rename_i hsame
    exact absurd (Prod.mk.inj (Option.some.inj hsame)).1 hfile
  · rename_i hsame
    obtain ⟨-, rfl⟩ := Prod.mk.inj (Option.some.inj hsame)
    rfl
  · rename_i hnone
    cases hnone

lemma fromRemoteUrl_of_hostAndPath
    (h : hostAndPath (httpsEquivalent url) = some (toAsciiLowercase host, path)) :
    fromRemoteUrl url = keyAt host path := by
  simp only [fromRemoteUrl, h, keyAt]

lemma keyAt_congr {path' : String} (h : pathSegments path = pathSegments path') :
    keyAt host path = keyAt host path' := by
  rw [keyAt, keyAt, h]

lemma splitOnce_slash_eq_some_iff : splitOnce "/" rest = some (authority, path) ↔
    '/' ∉ authority.toList ∧ rest = authority ++ ("/" ++ path) :=
  @splitOnce_singleton_eq_some_iff '/' rest authority path

lemma splitOnce_slash_eq_none_iff : splitOnce "/" rest = none ↔ '/' ∉ rest.toList :=
  @splitOnce_singleton_eq_none_iff '/' rest

lemma splitOnce_slash (h : '/' ∉ authority.toList) (path : String) :
    splitOnce "/" (authority ++ ("/" ++ path)) = some (authority, path) :=
  splitOnce_slash_eq_some_iff.mpr ⟨h, rfl⟩

/-- A URL the source rewrites has the key of the path on the host it rewrites it to. -/
lemma fromRemoteUrl_of_rewritten (hslash : '/' ∉ host.toList)
    (h : httpsEquivalent url = "https://" ++ host ++ "/" ++ trimStartChar '/' path) :
    fromRemoteUrl url = keyAt (hostOf host) path := by
  have hshape : httpsEquivalent url =
      "https" ++ ("://" ++ (host ++ ("/" ++ trimStartChar '/' path))) := by
    rw [h, show "https://" = "https" ++ "://" from rfl]
    simp only [String.append_assoc]
  have hparts : hostAndPath (httpsEquivalent url) =
      some (toAsciiLowercase (hostOf host), trimStartChar '/' path) := by
    rw [hshape, hostAndPath_of_scheme (by decide) (by decide), splitOnce_slash hslash,
      Option.getD_some]
  rw [fromRemoteUrl_of_hostAndPath hparts]
  exact keyAt_congr (pathSegments_trimStartChar path)

lemma fromRemoteUrl_of_ssh (hslash : '/' ∉ authority.toList) :
    fromRemoteUrl ("ssh" ++ ("://" ++ (authority ++ ("/" ++ path)))) =
      keyAt (hostOf (hostOf authority)) path := by
  refine fromRemoteUrl_of_rewritten (notMem_hostOf hslash) ?_
  have hstrip : stripPrefix "ssh://" ("ssh" ++ ("://" ++ (authority ++ ("/" ++ path)))) =
      some (authority ++ ("/" ++ path)) := by
    rw [stripPrefix_eq_some_iff, ← String.append_assoc]
    rfl
  rw [httpsEquivalent, hstrip]
  dsimp only
  rw [splitOnce_slash hslash]

/-- What has no `://` does not begin with a scheme. -/
lemma stripPrefix_ssh (h : splitOnce "://" url = none) : stripPrefix "ssh://" url = none := by
  rw [stripPrefix_eq_none_iff]
  intro rest hsplit
  rw [hsplit, show "ssh://" = "ssh" ++ "://" from rfl, String.append_assoc,
    splitOnce_scheme (by decide)] at h
  cases h

lemma scpLikeParts_eq_some_iff : scpLikeParts url = some (authority, path) ↔
    splitOnce "://" url = none ∧ splitAtHostColon url = some (authority, path) ∧
      '/' ∉ authority.toList := by
  rw [scpLikeParts, Option.ite_none_left_eq_some, Option.filter_eq_some_iff,
    Option.not_isSome_iff_eq_none]
  simp

lemma fromRemoteUrl_of_scp (h : scpLikeParts url = some (authority, path)) :
    fromRemoteUrl url = keyAt (hostOf (hostOf authority)) path := by
  obtain ⟨hscheme, -, hslash⟩ := scpLikeParts_eq_some_iff.mp h
  refine fromRemoteUrl_of_rewritten (notMem_hostOf hslash) ?_
  rw [httpsEquivalent, stripPrefix_ssh hscheme]
  dsimp only
  rw [h]

/-- A path on this machine is not rewritten. -/
lemma httpsEquivalent_of_local (h : splitOnce "://" url = none) (hscp : scpLikeParts url = none) :
    httpsEquivalent url = url := by
  rw [httpsEquivalent, stripPrefix_ssh h, hscp]

/-- A URL whose scheme is not rewritten is split as it is. -/
lemma httpsEquivalent_of_scheme (h : splitOnce "://" scheme = none)
    (hssh : scheme = "ssh" → '/' ∉ rest.toList) :
    httpsEquivalent (scheme ++ ("://" ++ rest)) = scheme ++ ("://" ++ rest) := by
  have hscp : scpLikeParts (scheme ++ ("://" ++ rest)) = none := by
    rw [scpLikeParts, splitOnce_scheme h]
    rfl
  rw [httpsEquivalent, hscp]
  cases hstrip : stripPrefix "ssh://" (scheme ++ ("://" ++ rest)) with
  | none => rfl
  | some other =>
      have hsplit := congrArg (splitOnce "://") (stripPrefix_eq_some_iff.mp hstrip)
      rw [show "ssh://" = "ssh" ++ "://" from rfl, String.append_assoc, splitOnce_scheme h,
        splitOnce_scheme (by decide), Option.some.injEq, Prod.mk.injEq] at hsplit
      obtain ⟨rfl, rfl⟩ := hsplit
      dsimp only
      rw [splitOnce_slash_eq_none_iff.mpr (hssh rfl)]

lemma fromRemoteUrl_of_scheme (h : splitOnce "://" scheme = none) (hfile : scheme ≠ "file")
    (hssh : scheme ≠ "ssh") (hslash : '/' ∉ authority.toList) :
    fromRemoteUrl (scheme ++ ("://" ++ (authority ++ ("/" ++ path)))) =
      keyAt (hostOf authority) path := by
  refine fromRemoteUrl_of_hostAndPath ?_
  rw [httpsEquivalent_of_scheme h fun hsame => absurd hsame hssh, hostAndPath_of_scheme h hfile,
    splitOnce_slash hslash, Option.getD_some]

/-- An authority that is named reaches its host, whatever the scheme. -/
lemma fromRemoteUrl_of_isAuthority (h : splitOnce "://" scheme = none) (hfile : scheme ≠ "file")
    (hauthority : IsAuthority host authority) (hslash : '/' ∉ authority.toList) :
    fromRemoteUrl (scheme ++ ("://" ++ (authority ++ ("/" ++ path)))) = keyAt host path := by
  by_cases hssh : scheme = "ssh"
  · rw [hssh, fromRemoteUrl_of_ssh hslash, hauthority.hostOf_eq, hauthority.self.hostOf_eq]
  · rw [fromRemoteUrl_of_scheme h hfile hssh hslash, hauthority.hostOf_eq]

/-- A host with no path on it has no key. -/
lemma keyAt_empty (host : String) : keyAt host "" = none := by
  rw [keyAt, show pathSegments "" = [] by decide]
  exact if_neg (by simp)

lemma fromRemoteUrl_of_no_path (h : splitOnce "://" scheme = none) (hfile : scheme ≠ "file")
    (hslash : '/' ∉ rest.toList) : fromRemoteUrl (scheme ++ ("://" ++ rest)) = none := by
  have hparts : hostAndPath (httpsEquivalent (scheme ++ ("://" ++ rest))) =
      some (toAsciiLowercase (hostOf rest), "") := by
    rw [httpsEquivalent_of_scheme h fun _ => hslash, hostAndPath_of_scheme h hfile,
      splitOnce_slash_eq_none_iff.mpr hslash, Option.getD_none]
  rw [fromRemoteUrl_of_hostAndPath hparts, keyAt_empty]

/-- Nor has what is all slashes after its scheme. -/
lemma fromRemoteUrl_of_slashes (h : splitOnce "://" scheme = none) (hfile : scheme ≠ "file")
    (hrest : ∀ c ∈ rest.toList, c = '/') : fromRemoteUrl (scheme ++ ("://" ++ rest)) = none := by
  cases hlist : rest.toList with
  | nil =>
      exact fromRemoteUrl_of_no_path h hfile (by simp [hlist])
  | cons c more =>
      have hempty : IsAuthority "" "" := ⟨by simp, "", "", by simp, .inl rfl, .inl rfl, by simp⟩
      obtain rfl : c = '/' := hrest c (by rw [hlist]; exact List.mem_cons_self)
      have hsplit : rest = "" ++ ("/" ++ String.ofList more) := by
        rw [← String.toList_inj, hlist]
        simp
      rw [hsplit, fromRemoteUrl_of_isAuthority h hfile hempty (by simp), keyAt]
      exact if_neg (by simp [toAsciiLowercase, isKeyableSegment])

/-! ## Keys -/

lemma keyAt_spec (h : keyAt host path = some key) :
    key.segments = toAsciiLowercase host :: pathSegments path ∧
      isKeyableSegment (toAsciiLowercase host) = true ∧
      ∀ segment ∈ pathSegments path, isKeyableSegment segment = true := by
  rw [keyAt, Option.ite_none_right_eq_some, Option.some.injEq] at h
  obtain ⟨⟨-, hall⟩, rfl⟩ := h
  rw [List.all_cons, Bool.and_eq_true, List.all_eq_true] at hall
  exact ⟨rfl, hall⟩

/-- A keyable segment has no character that ends a part of a URL. -/
lemma notMem_of_isKeyableSegment {segment : String} (h : isKeyableSegment segment = true) :
    ∀ c ∈ ['@', ':', '['], c ∉ segment.toList := by
  intro c hc hmem
  simp only [isKeyableSegment, decide_eq_true_eq, List.all_eq_true] at h
  have hkeyable := h.2 c hmem
  simp only [List.mem_cons, List.not_mem_nil, or_false] at hc
  rcases hc with rfl | rfl | rfl <;> exact absurd hkeyable (by decide)

/-- The host of a key is the one its authority names. -/
lemma isAuthority_of_keyAt (h : keyAt (hostOf authority) path = some key) :
    IsAuthority (hostOf authority) authority := by
  refine isAuthority_hostOf fun c hmem hc => ?_
  refine notMem_of_isKeyableSegment (keyAt_spec h).2.1 c hc ?_
  rw [toAsciiLowercase, String.toList_ofList, List.mem_map]
  refine ⟨c, hmem, ?_⟩
  simp only [List.mem_cons, List.not_mem_nil, or_false] at hc
  rcases hc with rfl | rfl | rfl <;> rfl

/-- A colon on a path is in one of its segments. -/
lemma exists_pathSegment_of_colon (h : ':' ∈ path.toList) :
    ∃ segment ∈ pathSegments path, ':' ∈ segment.toList := by
  have htrimmed : ':' ∈ (trimEndChar '/' path).toList :=
    mem_trimEndChar (show ':' ≠ '/' by decide) h
  have hkept : ':' ∈ (trimEndText ".git" (trimEndChar '/' path)).toList :=
    (mem_trimEndTimes _ htrimmed).resolve_left (by decide)
  obtain ⟨segment, hfield, hmem⟩ := exists_field_of_mem (show ':' ≠ '/' by decide) hkept
  refine ⟨segment, List.mem_filter.mpr ⟨hfield, ?_⟩, hmem⟩
  rw [decide_eq_true_eq]
  rintro rfl
  exact List.not_mem_nil hmem

lemma colon_notMem_of_keyAt (h : keyAt host path = some key) : ':' ∉ path.toList := by
  intro hmem
  obtain ⟨segment, hsegment, hcolon⟩ := exists_pathSegment_of_colon hmem
  exact notMem_of_isKeyableSegment ((keyAt_spec h).2.2 segment hsegment) ':' (by simp) hcolon

/-- A key that is made of a URL which names a host is made of the host and the path alone. -/
theorem segments_of_names (h : fromRemoteUrl url = some key) (hnames : Names url host path) :
    key.segments = toAsciiLowercase host :: pathSegments path := by
  obtain ⟨authority, hauthority, hslash, ⟨scheme, hscheme, hfile, rfl⟩ | ⟨hscheme, hcolon, hurl⟩⟩ :=
    hnames
  · rw [fromRemoteUrl_of_isAuthority hscheme hfile hauthority hslash] at h
    exact (keyAt_spec h).1
  · cases hscp : scpLikeParts url with
    | none =>
        -- the authority would have to begin with the slash of a path on this machine
        have hstarts : startsWith "/" url = false := by
          rw [Bool.eq_false_iff]
          intro hstarts
          obtain ⟨rest, hrest⟩ := startsWith_iff.mp hstarts
          rw [hurl] at hrest
          have hlist := congrArg String.toList hrest
          simp only [String.toList_append] at hlist
          cases hfirst : authority.toList with
          | nil => simp [hfirst] at hlist
          | cons c more =>
              have hc : c = '/' := by
                rw [hfirst] at hlist
                exact (List.cons.inj hlist).1
              rw [hfirst, hc] at hslash
              exact hslash List.mem_cons_self
        rw [fromRemoteUrl, httpsEquivalent_of_local hscheme hscp, hostAndPath, hscheme,
          hstarts] at h
        cases h
    | some parts =>
        -- the path of a key has no colon, so the colon that was split at is the last there is
        obtain ⟨found, rest⟩ := parts
        obtain ⟨-, hsplit, -⟩ := scpLikeParts_eq_some_iff.mp hscp
        rw [fromRemoteUrl_of_scp hscp] at h
        have hfound : rsplitOnce ':' url = some (found, rest) := by
          rw [splitAtHostColon_spec hsplit]
          exact rsplitOnce_append (colon_notMem_of_keyAt h)
        have hnamed : rsplitOnce ':' url = some (authority, path) := by
          rw [hurl]
          exact rsplitOnce_append hcolon
        rw [hnamed, Option.some.injEq, Prod.mk.injEq] at hfound
        obtain ⟨rfl, rfl⟩ := hfound
        rw [hauthority.hostOf_eq, hauthority.self.hostOf_eq] at h
        exact (keyAt_spec h).1

/-- A URL that names no path on this machine and has a key names a host. -/
theorem exists_names (h : fromRemoteUrl url = some key) (hhost : isPathOnThisMachine url = false) :
    ∃ host path, Names url host path := by
  rw [isPathOnThisMachine] at hhost
  cases hsplit : splitOnce "://" url with
  | none =>
      rw [hsplit] at hhost
      obtain ⟨⟨authority, path⟩, hscp⟩ := Option.isSome_iff_exists.mp
        (Option.isNone_eq_false_iff.mp hhost)
      obtain ⟨-, hcolon, hslash⟩ := scpLikeParts_eq_some_iff.mp hscp
      rw [fromRemoteUrl_of_scp hscp] at h
      exact ⟨hostOf (hostOf authority), path, authority, (isAuthority_of_keyAt h).of_hostOf, hslash,
        .inr ⟨hsplit, colon_notMem_of_keyAt h, splitAtHostColon_spec hcolon⟩⟩
  | some parts =>
      obtain ⟨scheme, rest⟩ := parts
      rw [hsplit] at hhost
      have hfile : scheme ≠ "file" := by simpa using hhost
      have hscheme := splitOnce_front (by decide) hsplit
      obtain rfl : url = scheme ++ ("://" ++ rest) := by
        rw [splitOnce_spec hsplit, String.append_assoc]
      cases hpath : splitOnce "/" rest with
      | none =>
          rw [fromRemoteUrl_of_no_path hscheme hfile (splitOnce_slash_eq_none_iff.mp hpath)] at h
          cases h
      | some parts =>
          obtain ⟨authority, path⟩ := parts
          obtain ⟨hslash, rfl⟩ := splitOnce_slash_eq_some_iff.mp hpath
          by_cases hssh : scheme = "ssh"
          · subst hssh
            rw [fromRemoteUrl_of_ssh hslash] at h
            exact ⟨hostOf (hostOf authority), path, authority, (isAuthority_of_keyAt h).of_hostOf,
              hslash, .inl ⟨"ssh", hscheme, hfile, rfl⟩⟩
          · rw [fromRemoteUrl_of_scheme hscheme hfile hssh hslash] at h
            exact ⟨hostOf authority, path, authority, isAuthority_of_keyAt h, hslash,
              .inl ⟨scheme, hscheme, hfile, rfl⟩⟩

/-- The key of a path on this machine is under `local`. -/
lemma head_of_isPathOnThisMachine (h : fromRemoteUrl url = some key)
    (hlocal : isPathOnThisMachine url = true) : key.segments.head? = some "local" := by
  have hkey : ∃ path, fromRemoteUrl url = keyAt "local" path := by
    rw [isPathOnThisMachine] at hlocal
    cases hsplit : splitOnce "://" url with
    | none =>
        rw [hsplit, Option.isNone_iff_eq_none] at hlocal
        refine ⟨url, ?_⟩
        rw [fromRemoteUrl, httpsEquivalent_of_local hsplit hlocal, hostAndPath, hsplit] at h ⊢
        cases hstarts : startsWith "/" url with
        | true => rfl
        | false =>
            rw [hstarts] at h
            cases h
    | some parts =>
        obtain ⟨scheme, path⟩ := parts
        rw [hsplit] at hlocal
        obtain rfl : scheme = "file" := by simpa using hlocal
        have hscheme := splitOnce_front (by decide) hsplit
        have hurl : url = "file" ++ ("://" ++ path) := by
          rw [splitOnce_spec hsplit, String.append_assoc]
        refine ⟨path, fromRemoteUrl_of_hostAndPath ?_⟩
        rw [hurl, httpsEquivalent_of_scheme hscheme fun hssh => absurd hssh (by decide),
          hostAndPath, splitOnce_scheme hscheme]
        rfl
  obtain ⟨path, hkey⟩ := hkey
  rw [(keyAt_spec (hkey ▸ h)).1]
  rfl

end Urls

end RepoKey

end AssemblyLine
