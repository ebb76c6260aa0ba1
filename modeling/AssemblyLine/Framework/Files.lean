import Mathlib.Data.List.Induction
import Mathlib.Data.List.Nodup

/-!
# A file system

`FileTree` is a finite tree of directories and files, by the paths that name something in it.  Its
invariant is carried in the structure: nothing is named twice, and everything lies in a directory.
`createDir`, `createDirAll` and `write` are the changes, each with what it refuses; what they do
is said by `node` alone (`node_put`), and `mem_readDir` says the same of a directory's listing.
-/

namespace AssemblyLine

universe u v

/-- What a path names. -/
inductive FileNode (C : Type v)
  | file (contents : C)
  | dir
deriving DecidableEq, Repr

/-- Why a change is refused. -/
inductive FileError
  | alreadyExists
  | notADirectory
  | isADirectory
deriving DecidableEq, Repr

structure FileTree (α : Type u) (C : Type v) [DecidableEq α] where
  entries : List (List α × FileNode C)
  nodup : (entries.map Prod.fst).Nodup
  root : entries.lookup [] = some .dir
  parents : ∀ dir name, (entries.lookup (dir ++ [name])).isSome → entries.lookup dir = some .dir

namespace FileTree

variable {α : Type u} {C : Type v} [DecidableEq α]

/-- What a path names, if it names anything. -/
def node (files : FileTree α C) (path : List α) : Option (FileNode C) := files.entries.lookup path

def isDir (files : FileTree α C) (path : List α) : Bool :=
  match files.node path with
  | some .dir => true
  | some (.file _) => false
  | none => false

def isFile (files : FileTree α C) (path : List α) : Bool :=
  match files.node path with
  | some .dir => false
  | some (.file _) => true
  | none => false

/-- The contents of a file. -/
def contents (files : FileTree α C) (path : List α) : Option C :=
  match files.node path with
  | some .dir => none
  | some (.file contents) => some contents
  | none => none

/-- The names in a directory, in no order in particular. -/
def readDir (files : FileTree α C) (dir : List α) : List α :=
  (files.entries.map Prod.fst).filterMap fun path =>
    if path.dropLast = dir then path.getLast? else none

/-- How long a path can be and name something. -/
def depth (files : FileTree α C) : ℕ := (files.entries.map fun entry => entry.1.length).foldr max 0

/-- Nothing but an empty root directory. -/
def empty : FileTree α C where
  entries := [([], .dir)]
  nodup := List.nodup_singleton _
  root := by simp
  parents dir name h := by
    have hne : (dir ++ [name] == []) = false := by simp
    rw [List.lookup_cons, hne] at h
    cases h

section Reading

variable {files : FileTree α C} {path dir : List α} {name : α}

lemma isDir_iff : files.isDir path = true ↔ files.node path = some .dir := by
  unfold isDir
  split <;> simp_all

lemma contents_eq_some_iff {found : C} :
    files.contents path = some found ↔ files.node path = some (.file found) := by
  unfold contents
  split <;> simp_all

lemma isFile_iff :
    files.isFile path = true ↔ ∃ contents, files.node path = some (.file contents) := by
  unfold isFile
  split <;> simp_all

lemma node_root : files.node [] = some .dir := files.root

lemma node_parent (h : (files.node (dir ++ [name])).isSome) : files.node dir = some .dir :=
  files.parents dir name h

/-- What a path goes through is a directory. -/
lemma node_of_below {rest : List α} (h : (files.node (dir ++ name :: rest)).isSome) :
    files.node dir = some .dir := by
  induction rest using List.reverseRecOn with
  | nil => exact node_parent h
  | append_singleton rest last ih =>
      apply ih
      have hlast : (files.node ((dir ++ name :: rest) ++ [last])).isSome := by
        rwa [List.append_assoc, List.cons_append]
      have hparent : files.node (dir ++ name :: rest) = some .dir := node_parent hlast
      rw [hparent]
      rfl

lemma node_isSome_iff : (files.node path).isSome ↔ path ∈ files.entries.map Prod.fst := by
  rw [node, List.lookup_isSome_iff]
  simp

lemma mem_readDir : name ∈ files.readDir dir ↔ (files.node (dir ++ [name])).isSome := by
  rw [node_isSome_iff, readDir, List.mem_filterMap]
  constructor
  · rintro ⟨path, hpath, hname⟩
    rw [Option.ite_none_right_eq_some] at hname
    obtain ⟨rfl, hlast⟩ := hname
    rwa [List.dropLast_append_getLast? name hlast]
  · intro h
    exact ⟨_, h, by simp⟩

lemma nodup_readDir (files : FileTree α C) (dir : List α) : (files.readDir dir).Nodup := by
  refine files.nodup.filterMap ?_
  intro p q name hp hq
  rw [Option.mem_def, Option.ite_none_right_eq_some] at hp hq
  rw [← List.dropLast_append_getLast? name hp.2, ← List.dropLast_append_getLast? name hq.2, hp.1,
    hq.1]

lemma length_le_depth (h : (files.node path).isSome) : path.length ≤ files.depth := by
  have hmem : path.length ∈ files.entries.map fun entry => entry.1.length := by
    obtain ⟨entry, hentry, rfl⟩ := List.mem_map.mp (node_isSome_iff.mp h)
    exact List.mem_map.mpr ⟨entry, hentry, rfl⟩
  unfold depth
  generalize files.entries.map (fun entry => entry.1.length) = lengths at hmem
  induction lengths with
  | nil => cases hmem
  | cons length lengths ih =>
      rw [List.foldr_cons]
      rcases List.mem_cons.mp hmem with heq | hlater
      · omega
      · have := ih hlater
        omega

end Reading

/-! ## Changes -/

lemma lookup_put (entries : List (List α × FileNode C)) (path q : List α) (new : FileNode C) :
    (entries.filter (fun entry => entry.1 ≠ path) ++ [(path, new)]).lookup q =
      if q = path then some new else entries.lookup q := by
  have hkept : (entries.filter fun entry => entry.1 ≠ path).lookup q =
      if q = path then none else entries.lookup q := by
    induction entries with
    | nil => simp
    | cons entry entries ih =>
        obtain ⟨p, found⟩ := entry
        by_cases hp : p = path
        · rw [List.filter_cons_of_neg (by simpa using hp), ih]
          by_cases hq : q = path
          · simp [hq]
          · have hne : (q == p) = false := by simpa [hp] using hq
            simp [hq, List.lookup_cons, hne]
        · rw [List.filter_cons_of_pos (by simpa using hp), List.lookup_cons, List.lookup_cons, ih]
          by_cases hq : q = path
          · have hne : (path == p) = false := by simpa using Ne.symm hp
            simp [hq, hne]
          · simp [hq]
  rw [List.lookup_append, hkept, List.lookup_cons, List.lookup_nil]
  by_cases hq : q = path
  · simp [hq]
  · have hne : (q == path) = false := by simpa using hq
    simp [hq, hne]

/-- Have a name in a directory name something, if it does not name a directory already. -/
def put (files : FileTree α C) (dir : List α) (name : α) (new : FileNode C)
    (hdir : files.node dir = some .dir) (hold : files.node (dir ++ [name]) ≠ some .dir) :
    FileTree α C where
  entries := files.entries.filter (fun entry => entry.1 ≠ dir ++ [name]) ++ [(dir ++ [name], new)]
  nodup := by
    rw [List.map_append, List.nodup_append]
    refine ⟨files.nodup.sublist (List.filter_sublist.map Prod.fst), List.nodup_singleton _, ?_⟩
    rintro path hpath _ hnew rfl
    obtain ⟨entry, hentry, rfl⟩ := List.mem_map.mp hpath
    rw [List.map_singleton, List.mem_singleton] at hnew
    exact absurd hnew (by simpa using (List.mem_filter.mp hentry).2)
  root := by
    rw [lookup_put, if_neg (by simp)]
    exact files.root
  parents path last h := by
    rw [lookup_put] at h
    rw [lookup_put]
    have hparent : files.node path = some .dir := by
      split at h
      · rename_i hsame
        obtain ⟨rfl, -⟩ := List.append_inj' hsame rfl
        exact hdir
      · exact files.parents path last h
    rw [if_neg]
    · exact hparent
    · rintro rfl
      exact hold hparent

/-- `std::fs::create_dir`. -/
def createDir (files : FileTree α C) (dir : List α) (name : α) : Except FileError (FileTree α C) :=
  if hdir : files.isDir dir = true then
    if hold : files.node (dir ++ [name]) = none then
      .ok (files.put dir name .dir (isDir_iff.mp hdir) (by rw [hold]; simp))
    else .error .alreadyExists
  else .error .notADirectory

/-- `std::fs::create_dir_all`, of the directories below one that is there.  What it made before it
failed stays. -/
def createDirAll (files : FileTree α C) (dir : List α) :
    List α → FileTree α C × Except FileError Unit
  | [] => (files, .ok ())
  | name :: rest =>
    match files.node (dir ++ [name]) with
    | some .dir => createDirAll files (dir ++ [name]) rest
    | some (.file _) => (files, .error (if rest = [] then .alreadyExists else .notADirectory))
    | none =>
      match files.createDir dir name with
      | .ok made => createDirAll made (dir ++ [name]) rest
      | .error e => (files, .error e)

lemma createDirAll_cons (files : FileTree α C) (dir rest : List α) (name : α) :
    files.createDirAll dir (name :: rest) =
      match files.node (dir ++ [name]) with
      | some .dir => createDirAll files (dir ++ [name]) rest
      | some (.file _) => (files, .error (if rest = [] then .alreadyExists else .notADirectory))
      | none =>
        match files.createDir dir name with
        | .ok made => createDirAll made (dir ++ [name]) rest
        | .error e => (files, .error e) := rfl

/-- Create a file, or replace what it holds. -/
def write (files : FileTree α C) (dir : List α) (name : α) (contents : C) :
    Except FileError (FileTree α C) :=
  if hdir : files.isDir dir = true then
    if hold : files.isDir (dir ++ [name]) = true then .error .isADirectory
    else .ok (files.put dir name (.file contents) (isDir_iff.mp hdir) (mt isDir_iff.mpr hold))
  else .error .notADirectory

section Changing

variable {files made : FileTree α C} {dir q : List α} {name : α}

@[simp] lemma node_put {new : FileNode C} {hdir : files.node dir = some .dir}
    {hold : files.node (dir ++ [name]) ≠ some .dir} :
    (files.put dir name new hdir hold).node q =
      if q = dir ++ [name] then some new else files.node q :=
  lookup_put files.entries (dir ++ [name]) q new

/-- A directory is made where there was nothing. -/
lemma node_of_createDir (h : files.createDir dir name = .ok made) :
    files.node dir = some .dir ∧ files.node (dir ++ [name]) = none ∧
      ∀ q, made.node q = if q = dir ++ [name] then some .dir else files.node q := by
  unfold createDir at h
  split at h
  · rename_i hdir
    split at h
    · rename_i hold
      obtain rfl := Except.ok.inj h
      exact ⟨isDir_iff.mp hdir, hold, fun q => node_put⟩
    · cases h
  · cases h

/-- Where there is nothing in a directory, another one can be made. -/
lemma exists_createDir (hdir : files.node dir = some .dir)
    (hnone : files.node (dir ++ [name]) = none) :
    ∃ made, files.createDir dir name = .ok made := by
  unfold createDir
  rw [dif_pos (isDir_iff.mpr hdir), dif_pos hnone]
  exact ⟨_, rfl⟩

lemma node_of_write {contents : C} (h : files.write dir name contents = .ok made) :
    files.node dir = some .dir ∧ files.node (dir ++ [name]) ≠ some .dir ∧
      ∀ q, made.node q = if q = dir ++ [name] then some (.file contents) else files.node q := by
  unfold write at h
  split at h
  · rename_i hdir
    split at h
    · cases h
    · rename_i hold
      obtain rfl := Except.ok.inj h
      exact ⟨isDir_iff.mp hdir, mt isDir_iff.mpr hold, fun q => node_put⟩
  · cases h

lemma write_of_dir {contents : C} (hdir : files.node dir = some .dir)
    (hold : files.node (dir ++ [name]) ≠ some .dir) :
    files.write dir name contents = .ok (files.put dir name (.file contents) hdir hold) := by
  rw [write, dif_pos (isDir_iff.mpr hdir), dif_neg (mt isDir_iff.mp hold)]

/-- What was there stays, and what is new is a directory. -/
lemma node_createDirAll (files : FileTree α C) (dir rest q : List α) :
    (files.createDirAll dir rest).1.node q = files.node q ∨
      files.node q = none ∧ (files.createDirAll dir rest).1.node q = some .dir := by
  induction rest generalizing files dir with
  | nil => exact .inl rfl
  | cons name rest ih =>
      rw [createDirAll_cons]
      split
      · exact ih files (dir ++ [name])
      · exact .inl rfl
      · rename_i hnone
        cases hmade : files.createDir dir name with
        | error e => exact .inl rfl
        | ok made =>
            obtain ⟨-, -, hnode⟩ := node_of_createDir hmade
            have hq := hnode q
            by_cases hsame : q = dir ++ [name]
            · subst hsame
              rw [if_pos rfl] at hq
              refine .inr ⟨hnone, ?_⟩
              rcases ih made (dir ++ [name]) with hkept | ⟨habsent, -⟩
              · exact hkept.trans hq
              · rw [hq] at habsent
                cases habsent
            · rw [if_neg hsame] at hq
              rw [← hq]
              exact ih made (dir ++ [name])

/-- Once every directory is made, the whole path is one. -/
lemma node_of_createDirAll {rest : List α} (hdir : files.node dir = some .dir)
    (h : files.createDirAll dir rest = (made, .ok ())) : made.node (dir ++ rest) = some .dir := by
  induction rest generalizing files dir with
  | nil =>
      obtain rfl := (Prod.mk.inj h).1
      rwa [List.append_nil]
  | cons name rest ih =>
      have happend : dir ++ name :: rest = (dir ++ [name]) ++ rest := by simp
      rw [happend]
      rw [createDirAll_cons] at h
      split at h
      · rename_i hthere
        exact ih hthere h
      · cases (Prod.mk.inj h).2
      · cases hmade : files.createDir dir name with
        | error e =>
            rw [hmade] at h
            cases (Prod.mk.inj h).2
        | ok made =>
            rw [hmade] at h
            refine ih ?_ h
            rw [(node_of_createDir hmade).2.2, if_pos rfl]

/-- Nothing changes off the path. -/
lemma node_createDirAll_of_not_prefix {rest : List α} (h : ¬ q <+: dir ++ rest) :
    (files.createDirAll dir rest).1.node q = files.node q := by
  induction rest generalizing files dir with
  | nil => rfl
  | cons name rest ih =>
      have happend : dir ++ name :: rest = (dir ++ [name]) ++ rest := by simp
      rw [happend] at h
      rw [createDirAll_cons]
      split
      · exact ih h
      · rfl
      · cases hmade : files.createDir dir name with
        | error e => rfl
        | ok made =>
            have hne : q ≠ dir ++ [name] := fun heq => h (heq ▸ List.prefix_append _ _)
            refine (ih h).trans ?_
            rw [(node_of_createDir hmade).2.2, if_neg hne]

/-- Below an empty directory nothing is in the way of another one. -/
lemma createDirAll_of_empty {rest : List α} (hdir : files.node dir = some .dir)
    (hempty : ∀ name rest, files.node (dir ++ name :: rest) = none) :
    (files.createDirAll dir rest).2 = .ok () := by
  induction rest generalizing files dir with
  | nil => rfl
  | cons name rest ih =>
      have hnone : files.node (dir ++ [name]) = none := hempty name []
      obtain ⟨made, hmade⟩ := exists_createDir hdir hnone
      obtain ⟨-, -, hnode⟩ := node_of_createDir hmade
      rw [createDirAll_cons]
      rw [hnone, hmade]
      apply ih
      · rw [hnode, if_pos rfl]
      · intro next rest
        rw [hnode, if_neg (by simp), List.append_assoc]
        exact hempty name (next :: rest)

/-- Directories that are there are left as they are. -/
lemma createDirAll_of_dir {rest : List α} (h : files.node (dir ++ rest) = some .dir) :
    files.createDirAll dir rest = (files, .ok ()) := by
  induction rest generalizing dir with
  | nil => rfl
  | cons name rest ih =>
      have hname : files.node (dir ++ [name]) = some .dir := by
        cases rest with
        | nil => exact h
        | cons next rest =>
            have hbelow : (files.node ((dir ++ [name]) ++ next :: rest)).isSome := by
              rw [List.append_assoc, List.singleton_append, h]
              rfl
            exact node_of_below hbelow
      rw [createDirAll_cons]
      rw [hname]
      apply ih
      rwa [List.append_assoc, List.singleton_append]

/-- A path whose directories cannot all be made has a file on it, and none of them is made. -/
lemma createDirAll_error {rest : List α} {e : FileError} (hdir : files.node dir = some .dir)
    (h : (files.createDirAll dir rest).2 = .error e) :
    (files.createDirAll dir rest).1 = files ∧
      (e = .alreadyExists → files.isFile (dir ++ rest) = true) := by
  induction rest generalizing files dir with
  | nil => cases h
  | cons name rest ih =>
      have happend : dir ++ name :: rest = (dir ++ [name]) ++ rest := by simp
      rw [happend]
      rw [createDirAll_cons] at h ⊢
      cases hnode : files.node (dir ++ [name]) with
      | some found =>
          rw [hnode] at h
          cases found with
          | dir => exact ih hnode h
          | file contents =>
              refine ⟨rfl, ?_⟩
              rintro rfl
              by_cases hrest : rest = []
              · rw [hrest, List.append_nil]
                exact isFile_iff.mpr ⟨contents, hnode⟩
              · rw [if_neg hrest] at h
                cases h
      | none =>
          exfalso
          obtain ⟨made, hmade⟩ := exists_createDir hdir hnode
          obtain ⟨-, -, hnode'⟩ := node_of_createDir hmade
          have hfresh : (made.createDirAll (dir ++ [name]) rest).2 = .ok () := by
            apply createDirAll_of_empty
            · rw [hnode', if_pos rfl]
            · intro next rest
              rw [hnode', if_neg (by simp)]
              by_contra hsome
              rw [node_of_below (Option.isSome_iff_ne_none.mpr hsome)] at hnode
              cases hnode
          rw [hnode, hmade] at h
          dsimp only at h
          rw [hfresh] at h
          cases h

end Changing

end FileTree

end AssemblyLine
