import AssemblyLine.Framework.Text
import Mathlib.Data.Set.Function

/-!
# JSON documents

`Json` is a document that is kept whole, and looked into by names and paths.  How documents are
written and read is a parameter, `JsonText`: of it a development assumes that the documents it is
about are read back as they were written (`JsonText.ReadsBack`).  `JsonText.ofWriter` has readers
that do this, for any set of documents whose texts are different.
-/

namespace AssemblyLine

/-- A JSON document.  An object is the list of its entries. -/
inductive Json
  | null
  | bool (b : Bool)
  | int (n : ℤ)
  /-- A number that is no integer, or is out of the range of one. -/
  | float (digits : String)
  | string (text : String)
  | array (items : List Json)
  | object (entries : List (String × Json))

namespace Json

/-! ## Looking into documents -/

/-- A string. -/
def asText : Json → Option String
  | .string text => some text
  | _ => none

/-- A signed integer. -/
def asInt : Json → Option ℤ
  | .int n => some n
  | _ => none

/-- The items of an array. -/
def asItems : Json → Option (List Json)
  | .array items => some items
  | _ => none

/-- The value of a name.  Of several entries of one name the last counts. -/
def get (name : String) : Json → Option Json
  | .object entries => (entries.reverse.find? fun e => e.1 = name).map Prod.snd
  | _ => none

/-- The place in an array that a token of a path stands for. -/
def arrayIndex (token : String) : Option ℕ :=
  if startsWith "+" token ∨ startsWith "0" token ∧ token.length ≠ 1 then none else parseU64 token

/-- The value at a path, by its tokens. -/
def pointer : List String → Json → Option Json
  | [], v => some v
  | token :: path, .array items =>
    ((arrayIndex token).bind fun index => items[index]?).bind (pointer path)
  | token :: path, v => (v.get token).bind (pointer path)

/-- The string at a path. -/
def textAt (path : List String) (v : Json) : Option String := (v.pointer path).bind asText

/-! ## Compact texts -/

/-- A string between its quotes, where none of its characters needs an escape. -/
def quoted (text : String) : List Char := '"' :: (text.toList ++ ['"'])

mutual

/-- The text of a document without white space, where no string of it needs an escape. -/
def compact : Json → List Char
  | .null => ['n', 'u', 'l', 'l']
  | .bool true => ['t', 'r', 'u', 'e']
  | .bool false => ['f', 'a', 'l', 's', 'e']
  | .int n => (toString n).toList
  | .float digits => digits.toList
  | .string text => quoted text
  | .array [] => ['[', ']']
  | .array (item :: items) => '[' :: (item.compact ++ moreItems items)
  | .object [] => ['\x7b', '\x7d']
  | .object ((name, value) :: entries) =>
    '\x7b' :: (quoted name ++ ':' :: (value.compact ++ moreEntries entries))

/-- The items of an array after the first, and its end. -/
def moreItems : List Json → List Char
  | [] => [']']
  | item :: items => ',' :: (item.compact ++ moreItems items)

/-- The entries of an object after the first, and its end. -/
def moreEntries : List (String × Json) → List Char
  | [] => ['\x7d']
  | (name, value) :: entries => ',' ::
      (quoted name ++ ':' :: (value.compact ++ moreEntries entries))

end

end Json

/-! ## Writing and reading -/

/-- A way of writing documents, and of reading them. -/
structure JsonText where
  write : Json → String
  /-- The document a text is, or what is said of a text that is none. -/
  read : String → Except String Json

namespace JsonText

variable {write : Json → String} {documents : Set Json} {v : Json}

/-- A document is read back as it was written. -/
def ReadsBack (json : JsonText) (v : Json) : Prop := json.read (json.write v) = .ok v

open Classical in
/-- A reader of some documents, by how they are written. -/
noncomputable def ofWriter (write : Json → String) (documents : Set Json) : JsonText where
  write := write
  read text :=
    if h : ∃ v ∈ documents, write v = text then .ok h.choose else .error "expected value"

/-- Documents that are written differently are read back. -/
lemma readsBack_ofWriter (hdifferent : Set.InjOn write documents) (hv : v ∈ documents) :
    (ofWriter write documents).ReadsBack v := by
  have hsome : ∃ u ∈ documents, write u = write v := ⟨v, hv, rfl⟩
  have hsame : hsome.choose = v :=
    hdifferent hsome.choose_spec.1 hv hsome.choose_spec.2
  exact (dif_pos hsome).trans (congrArg _ hsame)

end JsonText

end AssemblyLine
