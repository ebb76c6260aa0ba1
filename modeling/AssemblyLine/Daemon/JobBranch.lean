import AssemblyLine.Daemon.Submit
import AssemblyLine.Run.Claim

/-!
# Whether a remote has a job's branch

Two readings of `git ls-remote` decide what a remote has.  `shaOnRemote` resolves a name the way a
fetch does, among the refs listed.  `remoteLacksRef` asks only whether any ref was listed, and
`ls-remote` lists every ref whose name ends in the one asked for: so a branch `x/al/job-1` is taken
for `al/job-1`.

`lacks_iff_unresolved` is exactly when the two agree, and with them whether a revise of a job whose
branch is gone is refused as having none.
-/

namespace AssemblyLine

/-! ## Refs -/

/-- The characters of a ref's name: no control character, no space, and none that git gives a
meaning to. -/
def isRefChar (c : Char) : Bool :=
  0x20 < c.toNat ∧ c.toNat ≠ 0x7F ∧ c ∉ ['~', '^', ':', '?', '*', '[', '\\']

def isRefName (name : String) : Bool := name.toList ≠ [] && name.toList.all isRefChar

/-- A ref a remote carries. -/
structure RemoteRef where
  name : String
  sha : String
  /-- The commit an annotated tag names. -/
  peeled : Option String
  name_ok : isRefName name = true
  sha_ok : isObjectId sha = true
  peeled_ok : ∀ commit ∈ peeled, isObjectId commit = true

/-- What a remote says of a ref: an annotated tag's commit has a line of its own. -/
def RemoteRef.lines (r : RemoteRef) : List (String × String) :=
  (r.sha, r.name) :: (r.peeled.map fun commit => (commit, r.name ++ "^\x7b\x7d")).toList

/-- `ls-remote` lists a ref for a pattern that is its name, or what follows a `/` in it. -/
def tailMatches (pattern name : String) : Bool := name = pattern || endsWith ("/" ++ pattern) name

/-- What `ls-remote` lists. -/
def listedRefs (refs : List RemoteRef) (patterns : List String) : List (String × String) :=
  (refs.flatMap RemoteRef.lines).filter fun line => patterns.any fun p => tailMatches p line.2

/-- `ls-remote`, answered; `--exit-code` makes a listing of nothing exit 2. -/
def lsRemote (exitCode : Bool) (refs : List RemoteRef) (patterns : List String)
    (complaints : String) : GitAnswer :=
  .ok ⟨if exitCode && (listedRefs refs patterns).isEmpty then 2 else 0,
    listingText (listedRefs refs patterns), complaints⟩

/-! ## The two readings -/

/-- Whether the remote answered and does not carry the ref. -/
def remoteLacksRef (listed : GitAnswer) : Except String Bool :=
  listed.map fun out => out.exitCode = 2

/-- The names a ref may go by, in the order a fetch tries them. -/
def candidates (gitRef : String) : List String :=
  [gitRef, "refs/" ++ gitRef, "refs/tags/" ++ gitRef, "refs/heads/" ++ gitRef]

/-- The first of the names that is listed, an annotated tag by its commit. -/
def resolvedIn (gitRef : String) (refs : List (String × String)) : Option String :=
  let shaNamed := fun name => (refs.find? fun line => line.2 = name).map Prod.fst
  (candidates gitRef).findSome? fun candidate =>
    (shaNamed (candidate ++ "^\x7b\x7d")).or (shaNamed candidate)

/-- The commit a ref names on the remote; `none` when the remote has no such ref. -/
def shaOnRemote (gitRef : String) (listed : GitAnswer) : Except String (Option String) :=
  (listed.expectingSuccess "ls-remote").map fun stdout =>
    resolvedIn gitRef ((textLines stdout).filterMap (splitOnce "\t"))

/-- What is asked of the remote to resolve a ref. -/
def resolvingPatterns (gitRef : String) : List String := [gitRef, gitRef ++ "^\x7b\x7d"]

/-! ## Reading a listing -/

section Listing

variable {lines : List (String × String)} {line : String × String}

/-- **What is read of a listing**: its lines, of which the last may have lost white space. -/
lemma read_listingText (hall : ∀ l ∈ lines ++ [line], Listable l) : ∃ last : List (String × String),
    (textLines (trim (listingText (lines ++ [line])))).filterMap (splitOnce "\t") =
      lines ++ last ∧
      (endsInWhite line.2 = false → last = [line]) ∧
      (endsInWhite line.2 = true → ∀ x ∈ last, endsInWhite x.2 = false ∧
        ∀ c ∈ x.2.toList, c ∈ line.2.toList) := by
  have hsep : "\t" = String.singleton '\t' := rfl
  have htab : ∀ l ∈ lines ++ [line], '\t' ∉ l.1.toList := fun l hl =>
    notMem_of_isObjectId (hall l hl).1 (by decide)
  have hread : ∀ l ∈ lines ++ [line], ∀ name, splitOnce "\t" (l.1 ++ ("\t" ++ name)) =
      some (l.1, name) := by
    intro l hl name
    rw [hsep]
    exact splitOnce_append (htab l hl) name
  have hbefore : (lines.map fun l => l.1 ++ "\t" ++ l.2).filterMap (splitOnce "\t") = lines := by
    rw [List.filterMap_map]
    refine (List.filterMap_congr fun l hl => ?_).trans List.filterMap_some
    simp only [Function.comp_apply, String.append_assoc]
    exact hread l (List.mem_append_left _ hl) l.2
  obtain ⟨kept, hlines, hplain, hwhite⟩ := textLines_listingText hall
  rw [hlines, List.filterMap_append, hbefore]
  cases hends : endsInWhite line.2 with
  | false =>
      refine ⟨[line], ?_, by simp⟩
      rw [hplain hends, List.filterMap_cons, hread line (by simp)]
      rfl
  | true =>
      rcases hwhite hends with rfl | ⟨name, rfl, hstop, hchars⟩
      · have hnone : splitOnce "\t" line.1 = none := by
          rw [hsep]
          exact splitOnce_of_notMem (htab line (by simp))
        exact ⟨[], by simp [hnone], by simp⟩
      · refine ⟨[(line.1, name)], ?_, by simp, fun _ x hx => ?_⟩
        · rw [List.filterMap_cons, hread line (by simp)]
          rfl
        · rw [List.mem_singleton.mp hx]
          exact ⟨hstop, hchars⟩

end Listing

/-! ## What is listed for a name -/

section Resolving

variable {refs : List RemoteRef} {name : String} {r : RemoteRef} {complaints : String}

/-- The refs whose names end in the one asked for. -/
def matchingRefs (refs : List RemoteRef) (gitRef : String) : List RemoteRef :=
  refs.filter fun r => tailMatches gitRef r.name

lemma tailMatches_iff {pattern text : String} :
    tailMatches pattern text = true ↔
      text = pattern ∨ ∃ front, text = front ++ ("/" ++ pattern) := by
  simp only [tailMatches, endsWith, Bool.or_eq_true, decide_eq_true_eq, Option.isSome_iff_exists,
    stripSuffix_eq_some_iff]

/-- A ref's name holds none of the characters a peeled line ends in. -/
lemma notMem_of_isRefName {c : Char} (h : isRefName name = true) (hc : isRefChar c = false) :
    c ∉ name.toList := by
  intro hmem
  simp only [isRefName, Bool.and_eq_true, List.all_eq_true] at h
  rw [h.2 c hmem] at hc
  cases hc

lemma caret_notMem (h : isRefName name = true) : '^' ∉ name.toList :=
  notMem_of_isRefName h (by decide)

lemma ne_nil_of_isRefName (h : isRefName name = true) : name.toList ≠ [] := by
  simp only [isRefName, Bool.and_eq_true, decide_eq_true_eq] at h
  exact h.1

/-- A peeled line matches a peeled name exactly when its tag matches the name. -/
lemma tailMatches_append {pattern text back : String} :
    tailMatches (pattern ++ back) (text ++ back) = tailMatches pattern text := by
  rw [Bool.eq_iff_iff, tailMatches_iff, tailMatches_iff]
  refine or_congr (String.append_left_inj back) (exists_congr fun front => ?_)
  rw [← String.append_assoc, ← String.append_assoc, String.append_left_inj, String.append_assoc]

/-- A ref's own line matches no peeled name. -/
lemma tailMatches_peeled_pattern (h : isRefName name = true) (pattern : String) :
    tailMatches (pattern ++ "^\x7b\x7d") name = false := by
  rw [Bool.eq_false_iff]
  intro hmatches
  apply caret_notMem h
  rcases tailMatches_iff.mp hmatches with rfl | ⟨front, rfl⟩ <;> simp

/-- A peeled line matches no name that is not peeled. -/
lemma tailMatches_peeled_text (h : isRefName name = true) (text : String) :
    tailMatches name (text ++ "^\x7b\x7d") = false := by
  rw [Bool.eq_false_iff]
  intro hmatches
  have hcaret := caret_notMem h
  rcases tailMatches_iff.mp hmatches with hsame | ⟨front, hfront⟩
  · apply hcaret
    rw [← hsame]
    simp
  · have hlist := congrArg String.toList hfront
    simp only [String.toList_append] at hlist
    rcases List.append_eq_append_iff.mp hlist with ⟨gap, -, hends⟩ | ⟨gap, -, hends⟩
    · -- The separator would stand within the ending of the peeled line.
      have hslash : '/' ∈ "^\x7b\x7d".toList := by
        rw [hends]
        simp
      exact absurd hslash (by decide)
    · have hin : '^' ∈ "/".toList ++ name.toList := by
        rw [hends]
        simp
      rcases List.mem_append.mp hin with hin | hin
      · exact absurd hin (by decide)
      · exact hcaret hin

lemma mem_lines {line : String × String} : line ∈ r.lines ↔
    line = (r.sha, r.name) ∨ ∃ commit ∈ r.peeled, line = (commit, r.name ++ "^\x7b\x7d") := by
  simp [RemoteRef.lines, eq_comm]

lemma listable_of_mem_lines {line : String × String} (h : line ∈ r.lines) : Listable line := by
  have hfeed := notMem_of_isRefName r.name_ok (show isRefChar '\n' = false by decide)
  have hreturn := notMem_of_isRefName r.name_ok (show isRefChar '\r' = false by decide)
  rcases mem_lines.mp h with rfl | ⟨commit, hcommit, rfl⟩
  · exact ⟨r.sha_ok, ne_nil_of_isRefName r.name_ok, hfeed, hreturn⟩
  · exact ⟨r.peeled_ok commit hcommit, by simp, by simp [hfeed], by simp [hreturn]⟩

/-- Asked for a name and for it peeled, `ls-remote` lists all there is of the refs that end in
it. -/
lemma listedRefs_resolving (h : isRefName name = true) :
    listedRefs refs (resolvingPatterns name) =
      (matchingRefs refs name).flatMap RemoteRef.lines := by
  have hone : ∀ r : RemoteRef, (r.lines.filter fun line =>
      (resolvingPatterns name).any fun p => tailMatches p line.2) =
        if tailMatches name r.name then r.lines else [] := by
    intro r
    have hall : ∀ line ∈ r.lines, ((resolvingPatterns name).any fun p => tailMatches p line.2) =
        tailMatches name r.name := by
      intro line hline
      rcases mem_lines.mp hline with rfl | ⟨commit, -, rfl⟩
      · simp [resolvingPatterns, tailMatches_peeled_pattern r.name_ok]
      · simp [resolvingPatterns, tailMatches_peeled_text h, tailMatches_append]
    rw [List.filter_congr hall]
    cases tailMatches name r.name <;> simp
  induction refs with
  | nil => rfl
  | cons r refs ih =>
      rw [listedRefs, List.flatMap_cons, List.filter_append, hone r]
      rw [listedRefs] at ih
      rw [ih, matchingRefs, matchingRefs, List.filter_cons]
      cases tailMatches name r.name <;> rfl

/-- Asked for a name alone, it lists nothing exactly when no ref ends in it. -/
lemma listedRefs_eq_nil_iff (h : isRefName name = true) :
    listedRefs refs [name] = [] ↔ matchingRefs refs name = [] := by
  simp only [listedRefs, matchingRefs, List.filter_eq_nil_iff, List.mem_flatMap, List.any_cons,
    List.any_nil, Bool.or_false]
  constructor
  · intro hnone r hr
    exact hnone (r.sha, r.name) ⟨r, hr, mem_lines.mpr (Or.inl rfl)⟩
  · rintro hnone line ⟨r, hr, hline⟩
    rcases mem_lines.mp hline with rfl | ⟨commit, -, rfl⟩
    · exact hnone r hr
    · rw [tailMatches_peeled_text h]
      decide

/-- What `remoteLacksRef` makes of a remote's answer. -/
lemma remoteLacksRef_lsRemote (h : isRefName name = true) :
    remoteLacksRef (lsRemote true refs [name] complaints) = .ok true ↔
      matchingRefs refs name = [] := by
  rw [← listedRefs_eq_nil_iff h]
  cases hlisted : listedRefs refs [name] <;> simp [remoteLacksRef, lsRemote, hlisted, Except.map]

/-! ## What resolves -/

lemma resolvedIn_eq_none_iff {lines : List (String × String)} :
    resolvedIn name lines = none ↔ ∀ c ∈ candidates name, ∀ line ∈ lines,
      line.2 ≠ c ++ "^\x7b\x7d" ∧ line.2 ≠ c := by
  simp only [resolvedIn, List.findSome?_eq_none_iff, Option.or_eq_none_iff, Option.map_eq_none_iff,
    List.find?_eq_none, decide_eq_true_eq]
  exact forall₂_congr fun c _ => ⟨fun h line hline => ⟨h.1 line hline, h.2 line hline⟩,
    fun h => ⟨fun line hline => (h line hline).1, fun line hline => (h line hline).2⟩⟩

/-- Every name a ref may go by ends in the one asked for. -/
lemma tailMatches_of_mem_candidates {c : String} (h : c ∈ candidates name) :
    tailMatches name c = true := by
  rw [tailMatches_iff]
  simp only [candidates, List.mem_cons, List.not_mem_nil, or_false] at h
  rcases h with rfl | rfl | rfl | rfl
  · exact Or.inl rfl
  · exact Or.inr ⟨"refs", by rw [← String.append_assoc]; rfl⟩
  · exact Or.inr ⟨"refs/tags", by rw [← String.append_assoc]; rfl⟩
  · exact Or.inr ⟨"refs/heads", by rw [← String.append_assoc]; rfl⟩

lemma endsInWhite_append {front back : String} (h : back.toList ≠ []) :
    endsInWhite (front ++ back) = endsInWhite back := by
  rw [endsInWhite, String.toList_append, List.getLast?_append_of_ne_nil _ h, endsInWhite]

/-- What ends in a name ends in white space when the name does. -/
lemma endsInWhite_of_tailMatches {text : String} (h : isRefName name = true)
    (hmatches : tailMatches name text = true) : endsInWhite text = endsInWhite name := by
  rcases tailMatches_iff.mp hmatches with rfl | ⟨front, rfl⟩
  · rfl
  · rw [← String.append_assoc, endsInWhite_append (ne_nil_of_isRefName h)]

/-- Some name the ref may go by is a ref of the remote's, whose line is read whole: a reader that
trims the listing takes white space off the last name in it. -/
def Resolves (refs : List RemoteRef) (gitRef : String) : Prop :=
  ∃ r ∈ matchingRefs refs gitRef, r.name ∈ candidates gitRef ∧
    (endsInWhite gitRef = false ∨ r.peeled.isSome ∨ r ∈ (matchingRefs refs gitRef).dropLast)

/-- A line that names a candidate is of a ref that goes by it. -/
lemma candidate_of_mem_lines {line : String × String} {c : String} (hname : isRefName name = true)
    (hc : c ∈ candidates name) (hline : line ∈ r.lines)
    (hnamed : line.2 = c ++ "^\x7b\x7d" ∨ line.2 = c) :
    r.name = c := by
  have hcaret : '^' ∉ c.toList := by
    intro hmem
    simp only [candidates, List.mem_cons, List.not_mem_nil, or_false] at hc
    have hin : '^' ∈ name.toList := by
      rcases hc with rfl | rfl | rfl | rfl <;> simpa using hmem
    exact caret_notMem hname hin
  have hrcaret := caret_notMem r.name_ok
  rcases mem_lines.mp hline with rfl | ⟨commit, hcommit, rfl⟩
  · rcases hnamed with hnamed | hnamed
    · apply absurd _ hrcaret
      rw [show r.name = c ++ "^\x7b\x7d" from hnamed]
      simp
    · exact hnamed
  · rcases hnamed with hnamed | hnamed
    · exact (String.append_left_inj _).mp hnamed
    · apply absurd _ hcaret
      rw [← show r.name ++ "^\x7b\x7d" = c from hnamed]
      simp

/-- Among the lines of some refs a name resolves when one of the refs goes by a candidate. -/
lemma resolvedIn_lines_iff (hname : isRefName name = true) (listed : List RemoteRef) :
    resolvedIn name (listed.flatMap RemoteRef.lines) = none ↔
      ∀ r ∈ listed, r.name ∉ candidates name := by
  rw [resolvedIn_eq_none_iff]
  constructor
  · intro hnone r hr hc
    have hline : (r.sha, r.name) ∈ listed.flatMap RemoteRef.lines :=
      List.mem_flatMap.mpr ⟨r, hr, mem_lines.mpr (Or.inl rfl)⟩
    exact (hnone r.name hc _ hline).2 rfl
  · intro hnone c hc line hline
    obtain ⟨r, hr, hline⟩ := List.mem_flatMap.mp hline
    have hnot : ¬ (line.2 = c ++ "^\x7b\x7d" ∨ line.2 = c) := by
      intro hnamed
      apply hnone r hr
      rwa [candidate_of_mem_lines hname hc hline hnamed]
    exact not_or.mp hnot

/-- A name without a caret that does not end in white space is no candidate for one that does. -/
lemma resolvedIn_append_of_white (hname : isRefName name = true) (hwhite : endsInWhite name = true)
    {lines last : List (String × String)}
    (hlast : ∀ x ∈ last, endsInWhite x.2 = false ∧ '^' ∉ x.2.toList) :
    resolvedIn name (lines ++ last) = none ↔ resolvedIn name lines = none := by
  simp only [resolvedIn_eq_none_iff, List.mem_append]
  refine ⟨fun h c hc line hline => h c hc line (Or.inl hline), fun h c hc line hline => ?_⟩
  rcases hline with hline | hline
  · exact h c hc line hline
  · obtain ⟨hstop, hcaret⟩ := hlast line hline
    constructor
    · intro hnamed
      apply hcaret
      rw [hnamed]
      simp
    · intro hnamed
      have hends := endsInWhite_of_tailMatches hname (tailMatches_of_mem_candidates hc)
      rw [← hnamed, hstop, hwhite] at hends
      cases hends

/-- **What `shaOnRemote` makes of a remote's answer**: it has no such ref exactly when none
resolves. -/
lemma shaOnRemote_lsRemote (hname : isRefName name = true) :
    shaOnRemote name (lsRemote false refs (resolvingPatterns name) complaints) = .ok none ↔
      ¬ Resolves refs name := by
  have hread : shaOnRemote name (lsRemote false refs (resolvingPatterns name) complaints) =
      .ok (resolvedIn name ((textLines (trim (listingText
        ((matchingRefs refs name).flatMap RemoteRef.lines)))).filterMap (splitOnce "\t"))) := by
    rw [← listedRefs_resolving hname]
    rfl
  rw [hread, Except.ok.injEq, Resolves]
  rcases List.eq_nil_or_concat' (matchingRefs refs name) with hnone | ⟨before, last, hsome⟩
  · simp only [hnone]
    exact iff_of_true rfl (by simp)
  have hmatch : tailMatches name last.name = true := by
    have hmem : last ∈ matchingRefs refs name := by simp [hsome]
    exact (List.mem_filter.mp hmem).2
  have hends := endsInWhite_of_tailMatches hname hmatch
  have hpeeled : endsInWhite (last.name ++ "^\x7b\x7d") = false := by
    rw [endsInWhite_append (by decide)]
    decide
  have hlistable : ∀ {lines line}, (matchingRefs refs name).flatMap RemoteRef.lines =
      lines ++ [line] → ∀ l ∈ lines ++ [line], Listable l := by
    intro lines line hlines l hl
    rw [← hlines] at hl
    obtain ⟨r, -, hr⟩ := List.mem_flatMap.mp hl
    exact listable_of_mem_lines hr
  by_cases hlost : endsInWhite name = true ∧ last.peeled = none
  · -- The last line loses its end, and is not read as the ref it is.
    obtain ⟨hwhite, hunpeeled⟩ := hlost
    have hlines : (matchingRefs refs name).flatMap RemoteRef.lines =
        before.flatMap RemoteRef.lines ++ [(last.sha, last.name)] := by
      rw [hsome, List.flatMap_append]
      simp [RemoteRef.lines, hunpeeled]
    obtain ⟨kept, hheard, -, hkept⟩ := read_listingText (hlistable hlines)
    have hharmless : ∀ x ∈ kept, endsInWhite x.2 = false ∧ '^' ∉ x.2.toList := by
      intro x hx
      obtain ⟨hstop, hchars⟩ := hkept (hends.trans hwhite) x hx
      exact ⟨hstop, fun hcaret => caret_notMem last.name_ok (hchars _ hcaret)⟩
    rw [hlines, hheard, resolvedIn_append_of_white hname hwhite hharmless,
      resolvedIn_lines_iff hname]
    constructor
    · rintro hnone ⟨r, hr, hc, hread⟩
      refine hnone r ?_ hc
      rw [hsome, List.dropLast_concat] at hread
      rcases hread with hread | hread | hread
      · rw [hwhite] at hread
        cases hread
      · rw [hsome, List.mem_append, List.mem_singleton] at hr
        refine hr.resolve_right ?_
        rintro rfl
        rw [hunpeeled] at hread
        cases hread
      · exact hread
    · intro hnone r hr hc
      exact hnone ⟨r, by simp [hsome, hr], hc, Or.inr (Or.inr (by simp [hsome, hr]))⟩
  · -- Every line is read as it was listed.
    have hheard : (textLines (trim (listingText
        ((matchingRefs refs name).flatMap RemoteRef.lines)))).filterMap (splitOnce "\t") =
          (matchingRefs refs name).flatMap RemoteRef.lines := by
      cases hcommit : last.peeled with
      | none =>
          have hlines : (matchingRefs refs name).flatMap RemoteRef.lines =
              before.flatMap RemoteRef.lines ++ [(last.sha, last.name)] := by
            rw [hsome, List.flatMap_append]
            simp [RemoteRef.lines, hcommit]
          have hblack : endsInWhite last.name = false := by
            rw [hends]
            exact Bool.eq_false_iff.mpr fun hwhite => hlost ⟨hwhite, hcommit⟩
          obtain ⟨kept, hheard, hkept, -⟩ := read_listingText (hlistable hlines)
          rw [hlines, hheard, hkept hblack]
      | some commit =>
          have hlines : (matchingRefs refs name).flatMap RemoteRef.lines =
              (before.flatMap RemoteRef.lines ++ [(last.sha, last.name)]) ++
                [(commit, last.name ++ "^\x7b\x7d")] := by
            rw [hsome, List.flatMap_append]
            simp [RemoteRef.lines, hcommit]
          obtain ⟨kept, hheard, hkept, -⟩ := read_listingText (hlistable hlines)
          rw [hlines, hheard, hkept hpeeled]
    rw [hheard, resolvedIn_lines_iff hname]
    constructor
    · rintro hnone ⟨r, hr, hc, -⟩
      exact hnone r hr hc
    · intro hnone r hr hc
      refine hnone ⟨r, hr, hc, ?_⟩
      rw [hsome, List.mem_append, List.mem_singleton] at hr
      rcases hr with hr | rfl
      · exact Or.inr (Or.inr (by simp [hsome, hr]))
      · rcases not_and_or.mp hlost with hwhite | hcommit
        · exact Or.inl (Bool.eq_false_iff.mpr hwhite)
        · exact Or.inr (Or.inl (Option.isSome_iff_ne_none.mpr hcommit))

end Resolving

/-! ## When the two readings agree -/

section Agreeing

variable (json : JsonLines Event) (world : SubmitWorld)

/-- What a revise is told whose job has no branch. -/
def noBranchOn (url : String) (id : ℕ) : String :=
  s!"job {id} has no branch on {url} — it was deleted, or the job never pushed one, so " ++
    "there is nothing to revise; submit without --job to start a new job"

/-- The job a revise of `id` continues, on a remote with these refs: whether its branch is there is
asked of the remote. -/
def continuedOn (refs : List RemoteRef) (complaints : String) (files : RootFiles)
    (jobsDir : PathBuf) (id : ℕ) (url : String) : Except String Continued :=
  continuedFrom json
    { world with lacksJobBranch :=
        remoteLacksRef (lsRemote true refs [branchName id] complaints) } files jobsDir id url

/-- A revise that gets as far as its branch is refused as having none when the remote says so. -/
lemma continuedOn_of_lacks {refs : List RemoteRef} {complaints : String} {files : RootFiles}
    {jobsDir : PathBuf} {id : ℕ} {url provider : String} {paths : JobPaths} {events : List Event}
    (hpaths : openJob files jobsDir id = .ok paths)
    (hevents : readLog json files (paths.dir ++ [eventsName]) = .ok events)
    (hidle : continuedJob id true (.fromEvents id events) = .ok provider)
    (hlacks : remoteLacksRef (lsRemote true refs [branchName id] complaints) = .ok true) :
    continuedOn json world refs complaints files jobsDir id url = .error (noBranchOn url id) := by
  simp only [continuedOn, continuedFrom, hpaths, hevents, hidle, hlacks, Except.bind]
  rfl

/-- **When the two readings of a remote's refs agree.**  A remote that answers is said to lack a ref
exactly when the ref resolves to nothing, and a revise of a job whose branch resolves to nothing is
then refused as having none, if and only if the name does resolve or no ref on the remote ends in
it. -/
theorem lacks_iff_unresolved (refs : List RemoteRef) (gitRef complaints complaints' : String)
    (hname : isRefName gitRef = true) :
    ((remoteLacksRef (lsRemote true refs [gitRef] complaints) = .ok true ↔
          shaOnRemote gitRef (lsRemote false refs (resolvingPatterns gitRef) complaints') =
            .ok none) ∧
        ∀ files jobsDir id url paths events provider, gitRef = branchName id →
          openJob files jobsDir id = .ok paths →
          readLog json files (paths.dir ++ [eventsName]) = .ok events →
          continuedJob id true (.fromEvents id events) = .ok provider →
          shaOnRemote gitRef (lsRemote false refs (resolvingPatterns gitRef) complaints') =
            .ok none →
          continuedOn json world refs complaints files jobsDir id url =
            .error (noBranchOn url id)) ↔
      Resolves refs gitRef ∨ matchingRefs refs gitRef = [] := by
  have hagree : (remoteLacksRef (lsRemote true refs [gitRef] complaints) = .ok true ↔
      shaOnRemote gitRef (lsRemote false refs (resolvingPatterns gitRef) complaints') = .ok none) ↔
        Resolves refs gitRef ∨ matchingRefs refs gitRef = [] := by
    rw [remoteLacksRef_lsRemote hname, shaOnRemote_lsRemote hname]
    constructor
    · intro hsame
      by_cases hnone : matchingRefs refs gitRef = []
      · exact Or.inr hnone
      · exact Or.inl (not_not.mp fun hresolves => hnone (hsame.mpr hresolves))
    · rintro (hresolves | hnone)
      · refine iff_of_false (fun hnone => ?_) (not_not.mpr hresolves)
        obtain ⟨r, hr, -⟩ := hresolves
        rw [hnone] at hr
        cases hr
      · refine iff_of_true hnone ?_
        rintro ⟨r, hr, -⟩
        rw [hnone] at hr
        cases hr
  rw [← hagree]
  refine and_iff_left_of_imp fun hsame => ?_
  rintro files jobsDir id url paths events provider rfl hpaths hevents hidle hgone
  exact continuedOn_of_lacks json world hpaths hevents hidle (hsame.mpr hgone)

end Agreeing

/-! ## A branch that ends in a job's

The branch of job 1 was deleted when its pull request merged, and somebody keeps a copy of it under
their own name. -/

/-- `refs/heads/x/al/job-1`. -/
def copiedBranch : RemoteRef where
  name := "refs/heads/x/al/job-1"
  sha := "c0de"
  peeled := none
  name_ok := by decide
  sha_ok := by decide
  peeled_ok := by simp

/-- The remote's own branch. -/
def mainBranch : RemoteRef where
  name := "refs/heads/main"
  sha := "4b82"
  peeled := none
  name_ok := by decide
  sha_ok := by decide
  peeled_ok := by simp

/-- The log of job 1, whose round was cancelled before it started. -/
def closedJob : List Event :=
  [requestOf "https://git.example.com/team",
    ⟨1786752001000000000, .roundFailed "cancelled before it started"⟩]

/-- The root when job 1's directory was created. -/
def createdFiles : RootFiles := (createJob FileTree.empty (teamJob.key.jobsDir ["srv"]) 1).1

lemma createdFiles_dir : createdFiles.node (teamJob.dir ["srv"]) = some .dir := by decide +kernel

lemma createdFiles_events :
    createdFiles.node (teamJob.dir ["srv"] ++ [eventsName]) ≠ some .dir := by
  decide +kernel

/-- The root with job 1's directory, and its log in it. -/
noncomputable def closedFiles : RootFiles :=
  createdFiles.put (teamJob.dir ["srv"]) eventsName (.file (requestJson.bytesOf closedJob))
    createdFiles_dir createdFiles_events

lemma readLog_closedFiles :
    readLog requestJson.toJsonLines closedFiles (teamJob.dir ["srv"] ++ [eventsName]) =
      .ok closedJob := by
  have hnode : closedFiles.node (teamJob.dir ["srv"] ++ [eventsName]) =
      some (.file (requestJson.bytesOf closedJob)) := rfl
  rw [readLog, hnode]
  dsimp only
  rw [SharedLog.readEvents_bytesOf]

/-- **A revise of a job whose branch is gone is not refused**: the name resolves to nothing, and the
remote is not said to lack it. -/
theorem copied_branch_taken_for_job :
    isRefName (branchName 1) = true ∧
      shaOnRemote (branchName 1)
        (lsRemote false [mainBranch, copiedBranch] (resolvingPatterns (branchName 1)) "") =
          .ok none ∧
      remoteLacksRef (lsRemote true [mainBranch, copiedBranch] [branchName 1] "") = .ok false ∧
      continuedOn requestJson.toJsonLines mainOnly [mainBranch, copiedBranch] "" closedFiles
        (teamJob.key.jobsDir ["srv"]) 1 "https://git.example.com/team" =
          .ok ⟨⟨1, teamJob.dir ["srv"]⟩, "main", "claude"⟩ := by
  have hlacks : remoteLacksRef (lsRemote true [mainBranch, copiedBranch] [branchName 1] "") =
      .ok false := by decide
  refine ⟨by decide, by decide, hlacks, ?_⟩
  have hpaths : openJob closedFiles (teamJob.key.jobsDir ["srv"]) 1 =
      .ok ⟨1, teamJob.dir ["srv"]⟩ := rfl
  simp only [continuedOn, continuedFrom, hpaths, Except.bind, hlacks, readLog_closedFiles]
  rfl

/-- With no such copy the revise is refused. -/
theorem lacks_iff_unresolved_main :
    continuedOn requestJson.toJsonLines mainOnly [mainBranch] "" closedFiles
      (teamJob.key.jobsDir ["srv"]) 1 "https://git.example.com/team" =
        .error (noBranchOn "https://git.example.com/team" 1) :=
  ((lacks_iff_unresolved requestJson.toJsonLines mainOnly [mainBranch] (branchName 1) "" ""
    (by decide)).mpr (Or.inr (by decide))).2 closedFiles (teamJob.key.jobsDir ["srv"]) 1
      "https://git.example.com/team" ⟨1, teamJob.dir ["srv"]⟩ closedJob "claude" rfl rfl
      readLog_closedFiles rfl (by decide)

end AssemblyLine
