import Mathlib.Data.List.Basic
import Mathlib.Logic.Equiv.List

/-!
# Lines of bytes, and values written one to a line

A byte stream is read by the line feeds in it.  `splitOn_lines` is the one fact about splitting
that everything else uses: a stream made of line-feed-free lines, each followed by a line feed,
and a line-feed-free tail splits into exactly those lines and that tail.

`utf8` and `fromUtf8` are a string's bytes and the string a byte sequence encodes, when it
encodes one, and `fromUtf8Lossy` is the string it is read as in any case; `bufLines` is how a
buffered reader splits a stream into lines, and `WriteTo` is what can be written to.  `JsonLines` is
a way of writing values as text, one value to a line, that reads each value back: what serializing
to compact JSON guarantees.  `JsonRecords` adds what is guaranteed of values written as JSON
objects, in particular that text which goes on after the object is not read.
`JsonRecords.ofTable` builds one that agrees with a given finite table, so that a statement about
every such way can be tried on concrete text.
-/

namespace AssemblyLine

universe u

/-! ## Splitting -/

section Splitting

variable {β : Type u} [DecidableEq β]

/-- The pieces between separators; a separator at the very end opens no further piece. -/
def segments (sep : β) (bs : List β) : List (List β) :=
  (bs.splitOn sep).dropLast ++ ((bs.splitOn sep).getLast?.filter (· ≠ [])).toList

/-- A stream of terminated lines and a tail splits into the lines and the tail. -/
theorem splitOn_lines {sep : β} {lines : List (List β)} {tail : List β}
    (hlines : ∀ l ∈ lines, sep ∉ l) (htail : sep ∉ tail) :
    ((lines.flatMap fun l => l ++ [sep]) ++ tail).splitOn sep = lines ++ [tail] := by
  induction lines with
  | nil => simpa using List.splitOn_eq_singleton htail
  | cons l lines ih =>
      have hl : sep ∉ l := hlines l (by simp)
      have hrest : ∀ l ∈ lines, sep ∉ l := fun k hk => hlines k (by simp [hk])
      have hshape : ((l :: lines).flatMap fun l => l ++ [sep]) ++ tail =
          l ++ sep :: ((lines.flatMap fun l => l ++ [sep]) ++ tail) := by simp
      rw [hshape, List.splitOn_append_cons_self_of_not_mem hl, ih hrest]
      rfl

/-- The pieces of terminated lines and a tail: the lines, and the tail when it is not empty. -/
lemma segments_lines_append {sep : β} {lines : List (List β)} {tail : List β}
    (hlines : ∀ l ∈ lines, sep ∉ l) (htail : sep ∉ tail) :
    segments sep ((lines.flatMap fun l => l ++ [sep]) ++ tail) =
      lines ++ if tail = [] then [] else [tail] := by
  rw [segments, splitOn_lines hlines htail, List.dropLast_concat, List.getLast?_concat]
  by_cases hempty : tail = [] <;> simp [hempty]

lemma segments_lines {sep : β} {lines : List (List β)} (hlines : ∀ l ∈ lines, sep ∉ l) :
    segments sep (lines.flatMap fun l => l ++ [sep]) = lines := by
  simpa using segments_lines_append hlines (List.not_mem_nil)

/-- The first place of an entry is after a part that lacks it. -/
lemma idxOf?_eq_some_iff_append {a : β} {l : List β} {i : ℕ} :
    l.idxOf? a = some i ↔ ∃ front back, l = front ++ a :: back ∧ a ∉ front ∧ front.length = i := by
  constructor
  · intro h
    obtain ⟨hlt, hat, hbefore⟩ := List.idxOf?_eq_some_iff.mp h
    refine ⟨l.take i, l.drop (i + 1), ?_, ?_, by rw [List.length_take]; omega⟩
    · have hsplit := (List.take_append_drop i l).symm
      rwa [List.drop_eq_getElem_cons hlt, hat] at hsplit
    · intro hmem
      obtain ⟨j, hj, hja⟩ := List.mem_iff_getElem.mp hmem
      rw [List.length_take] at hj
      rw [List.getElem_take] at hja
      exact hbefore j (by omega) hja
  · rintro ⟨front, back, rfl, hfront, rfl⟩
    induction front with
    | nil => simp [List.idxOf?_cons]
    | cons b front ih =>
        rw [List.mem_cons, not_or] at hfront
        simp [List.idxOf?_cons, Ne.symm hfront.1, ih hfront.2]

end Splitting

/-! ## Text -/

/-- The byte that ends a line. -/
def lineFeed : UInt8 := 10

/-- The byte a reader of lines drops before a line feed. -/
def carriageReturn : UInt8 := 13

/-- The bytes of a string. -/
def utf8 (s : String) : List UInt8 := s.toUTF8.data.toList

/-- The string some bytes encode, when they encode one. -/
def fromUtf8 (bytes : List UInt8) : Option String := String.fromUTF8? ⟨bytes.toArray⟩

@[simp] lemma fromUtf8_utf8 (s : String) : fromUtf8 (utf8 s) = some s := by
  have hvalid : (⟨s.toByteArray.data.toList.toArray⟩ : ByteArray).IsValidUTF8 := s.isValidUTF8
  simp only [fromUtf8, utf8, String.fromUTF8?, String.toUTF8_eq_toByteArray, dif_pos hvalid]
  rfl

lemma utf8_append (s t : String) : utf8 (s ++ t) = utf8 s ++ utf8 t := by
  simp [utf8]

@[simp] lemma utf8_empty : utf8 "" = [] := rfl

lemma utf8_injective : Function.Injective utf8 := by
  intro s t h
  have hdecoded : fromUtf8 (utf8 s) = fromUtf8 (utf8 t) := by rw [h]
  simpa using hdecoded

/-- What decodes is the bytes of its text. -/
lemma utf8_of_fromUtf8 {bytes : List UInt8} {text : String} (h : fromUtf8 bytes = some text) :
    utf8 text = bytes := by
  unfold fromUtf8 String.fromUTF8? at h
  split at h
  · obtain rfl := Option.some.inj h
    rfl
  · cases h

/-- A decoded prefix of a text's bytes ends between two of its characters. -/
lemma exists_append_of_fromUtf8 {text front : String} {part rest : List UInt8}
    (hbytes : utf8 text = part ++ rest) (hfront : fromUtf8 part = some front) :
    ∃ back, text = front ++ back := by
  have hpart := utf8_of_fromUtf8 hfront
  have hvalid : (String.Pos.Raw.mk part.length).IsValid text := by
    rw [String.Pos.Raw.isValid_iff_isValidUTF8_extract_zero]
    have harray : text.toByteArray.data.toList = part ++ rest := hbytes
    constructor
    · rw [String.Pos.Raw.le_iff]
      have hsize : text.toByteArray.size = (part ++ rest).length := by
        rw [← harray]
        simp
      simp [← String.size_toByteArray, hsize]
    · have hextract : text.toByteArray.extract 0 part.length = front.toByteArray := by
        apply ByteArray.ext
        apply Array.toList_inj.mp
        rw [ByteArray.data_extract, Array.toList_extract, harray]
        simp [List.extract, ← hpart, utf8]
      rw [hextract]
      exact front.isValidUTF8
  obtain ⟨before, back, htext, hend⟩ := String.Pos.Raw.isValid_iff_exists_append.mp hvalid
  refine ⟨back, ?_⟩
  have hsame : before = front := by
    apply utf8_injective
    have hlength : (utf8 before).length = part.length := by
      have := congrArg String.Pos.Raw.byteIdx hend
      simp [utf8] at this ⊢
      omega
    have happend : utf8 before ++ utf8 back = part ++ rest := by
      rw [← utf8_append, ← htext, hbytes]
    rw [hpart]
    exact (List.append_inj happend hlength).1
  rw [← hsame]
  exact htext

/-! ### Decoding what is not text -/

/-- How many bytes are to follow the first byte of a character, and in what range the next is. -/
def followersOf (b : UInt8) : Option (ℕ × UInt8 × UInt8) :=
  if b < 0x80 then some (0, 0x80, 0xBF)
  else if 0xC2 ≤ b ∧ b ≤ 0xDF then some (1, 0x80, 0xBF)
  else if b = 0xE0 then some (2, 0xA0, 0xBF)
  else if b = 0xED then some (2, 0x80, 0x9F)
  else if 0xE1 ≤ b ∧ b ≤ 0xEF then some (2, 0x80, 0xBF)
  else if b = 0xF0 then some (3, 0x90, 0xBF)
  else if 0xF1 ≤ b ∧ b ≤ 0xF3 then some (3, 0x80, 0xBF)
  else if b = 0xF4 then some (3, 0x80, 0x8F)
  else none

/-- How many of the bytes that are to follow do, and whether all of them do. -/
def followed : ℕ → UInt8 → UInt8 → List UInt8 → ℕ × Bool
  | 0, _, _, _ => (0, true)
  | _ + 1, _, _, [] => (0, false)
  | owed + 1, least, greatest, b :: bytes =>
    if least ≤ b ∧ b ≤ greatest then
      let rest := followed owed 0x80 0xBF bytes
      (rest.1 + 1, rest.2)
    else (0, false)

/-- The characters of some bytes, at most `fuel` of them.  Bytes that begin a character and do not
go on with it, and a byte that begins none, become one replacement character. -/
def lossyChars : ℕ → List UInt8 → List Char
  | 0, _ => []
  | _ + 1, [] => []
  | fuel + 1, b :: bytes =>
    match followersOf b with
    | none => '\uFFFD' :: lossyChars fuel bytes
    | some (owed, least, greatest) =>
      let taken := followed owed least greatest bytes
      let decoded := (fromUtf8 (b :: bytes.take taken.1)).bind fun text => text.toList.head?
      (if taken.2 then decoded.getD '\uFFFD' else '\uFFFD') ::
        lossyChars fuel (bytes.drop taken.1)

/-- `String::from_utf8_lossy`. -/
def fromUtf8Lossy (bytes : List UInt8) : String :=
  match fromUtf8 bytes with
  | some text => text
  | none => String.ofList (lossyChars bytes.length bytes)

@[simp] lemma fromUtf8Lossy_utf8 (s : String) : fromUtf8Lossy (utf8 s) = s := by
  rw [fromUtf8Lossy, fromUtf8_utf8]

instance countableUInt8 : Countable UInt8 :=
  Function.Injective.countable (f := UInt8.toNat) fun _ _ h => UInt8.toNat_inj.mp h

instance countableString : Countable String := utf8_injective.countable

/-- `char::is_whitespace`: Unicode's `White_Space`. -/
def isWhitespace (c : Char) : Bool :=
  let n := c.toNat
  (9 ≤ n ∧ n ≤ 13) ∨ n ∈ [0x20, 0x85, 0xA0, 0x1680] ∨ (0x2000 ≤ n ∧ n ≤ 0x200A) ∨
    n ∈ [0x2028, 0x2029, 0x202F, 0x205F, 0x3000]

/-- `text.trim().is_empty()`. -/
def isBlank (text : String) : Bool := text.toList.all isWhitespace

/-- A line without the carriage return at its end, if there is one. -/
def stripCarriageReturn (line : List UInt8) : List UInt8 :=
  if line.getLast? = some carriageReturn then line.dropLast else line

/-- `BufRead::lines`, before decoding: a line's end is a line feed, with any carriage return
before it; what follows the last line feed is a line when it is not empty. -/
def bufLines (bytes : List UInt8) : List (List UInt8) :=
  (bytes.splitOn lineFeed).dropLast.map stripCarriageReturn ++
    ((bytes.splitOn lineFeed).getLast?.filter (· ≠ [])).toList

lemma stripCarriageReturn_of_notMem {line : List UInt8} (h : carriageReturn ∉ line) :
    stripCarriageReturn line = line := by
  rw [stripCarriageReturn, if_neg]
  intro hlast
  exact h (List.mem_of_getLast? hlast)

/-- Terminated lines without a carriage return are read as they were written. -/
lemma bufLines_lines {lines : List (List UInt8)} (hlines : ∀ l ∈ lines, lineFeed ∉ l)
    (hreturn : ∀ l ∈ lines, carriageReturn ∉ l) :
    bufLines (lines.flatMap fun l => l ++ [lineFeed]) = lines := by
  have hsplit : (lines.flatMap fun l => l ++ [lineFeed]).splitOn lineFeed = lines ++ [[]] := by
    simpa using splitOn_lines hlines (List.not_mem_nil)
  have hstrip : lines.map stripCarriageReturn = lines := by
    rw [List.map_congr_left fun l hl => stripCarriageReturn_of_notMem (hreturn l hl)]
    exact List.map_id' lines
  simp [bufLines, hsplit, hstrip]

/-! ## Sinks -/

/-- What a writer does to its sink: `write_all` and `flush`, each saying whether it succeeded. -/
structure WriteTo (W : Type) where
  writeAll : W → List UInt8 → W × Bool
  flush : W → W × Bool

/-- A sink in memory, which never fails: `Vec<u8>`. -/
def vecSink : WriteTo (List UInt8) where
  writeAll sink bytes := (sink ++ bytes, true)
  flush sink := (sink, true)

/-! ## Values written one to a line -/

/-- A way of writing values as text that holds no raw line feed and reads back to the value. -/
structure JsonLines (α : Type u) where
  /-- `serde_json::to_string`. -/
  write : α → String
  /-- `serde_json::from_str`. -/
  read : String → Option α
  read_write : ∀ a, read (write a) = some a
  noLineFeed : ∀ a, lineFeed ∉ utf8 (write a)

namespace JsonLines

variable {α : Type u} (json : JsonLines α)

/-- The bytes of values written one to a line. -/
def bytesOf (values : List α) : List UInt8 :=
  values.flatMap fun a => utf8 (json.write a) ++ [lineFeed]

@[simp] lemma bytesOf_nil : json.bytesOf [] = [] := rfl

/-- Splitting what was written one to a line gives back the texts, in order. -/
theorem segments_bytesOf (values : List α) :
    segments lineFeed (json.bytesOf values) = values.map fun a => utf8 (json.write a) := by
  have hshape : json.bytesOf values =
      (values.map fun a => utf8 (json.write a)).flatMap fun l => l ++ [lineFeed] := by
    simp [bytesOf, List.flatMap_map]
  rw [hshape]
  apply segments_lines
  intro l hl
  obtain ⟨a, -, rfl⟩ := List.mem_map.mp hl
  exact json.noLineFeed a

end JsonLines

/-! ## Values written as objects -/

/-- A way of writing values as JSON objects, with what a reader of whole documents promises. -/
structure JsonRecords (α : Type u) extends JsonLines α where
  /-- Control characters are escaped. -/
  noCarriageReturn : ∀ a, carriageReturn ∉ utf8 (write a)
  notBlank : ∀ a, isBlank (write a) = false
  /-- A document followed by anything but white space does not read: "trailing characters". -/
  trailing : ∀ a rest, (read (write a ++ rest)).isSome → isBlank rest

namespace JsonRecords

variable {α : Type u}

/-- Two values on one line do not read. -/
lemma read_joined (json : JsonRecords α) (a b : α) (rest : String) :
    json.read (json.write a ++ (json.write b ++ rest)) = none := by
  by_contra hread
  have hblank := json.trailing a _ (Option.isSome_iff_ne_none.mpr hread)
  have hwritten := json.notBlank b
  simp only [isBlank, String.toList_append, List.all_append, Bool.and_eq_true] at hblank hwritten
  rw [hblank.1] at hwritten
  exact absurd hwritten (by decide)

/-- A document that is cut short does not read. -/
def CutUnread (json : JsonRecords α) : Prop :=
  ∀ a front back, json.write a = front ++ back → back ≠ "" → json.read front = none

/-! Any countable type can be written so, and so that finitely many of its values are written as
given texts. -/

/-- The `n`th of infinitely many objects, none of which is a prefix of another. -/
def objectText (n : ℕ) : String := String.ofList ('{' :: (List.replicate n '1' ++ ['}']))

/-- The texts a table gives are single lines, open as objects with a first key do, and are not
prefixes of one another. -/
def TableOk [DecidableEq α] (table : List (α × String)) : Prop :=
  (∀ x ∈ table, x.2.toList.take 2 = ['{', '"'] ∧
    lineFeed ∉ utf8 x.2 ∧ carriageReturn ∉ utf8 x.2) ∧
  ∀ x ∈ table, ∀ y ∈ table, x.2.toList <+: y.2.toList → x.1 = y.1

instance [DecidableEq α] (table : List (α × String)) : Decidable (TableOk table) :=
  inferInstanceAs (Decidable (_ ∧ _))

@[simp] lemma toList_objectText (n : ℕ) :
    (objectText n).toList = '{' :: (List.replicate n '1' ++ ['}']) := String.toList_ofList

lemma objectText_prefixFree {m n : ℕ} (h : (objectText m).toList <+: (objectText n).toList) :
    m = n := by
  simp only [toList_objectText, List.cons_prefix_cons, true_and] at h
  induction m generalizing n with
  | zero =>
      cases n with
      | zero => rfl
      | succ n => simp [List.replicate_succ] at h
  | succ m ih =>
      cases n with
      | zero => simp [List.replicate_succ] at h
      | succ n =>
          have hrest : List.replicate m '1' ++ ['}'] <+: List.replicate n '1' ++ ['}'] := by
            simpa [List.replicate_succ, List.cons_prefix_cons] using h
          rw [ih hrest]

/-- Every byte of an object text is a brace or a digit. -/
lemma mem_utf8_objectText {n : ℕ} {b : UInt8} (h : b ∈ utf8 (objectText n)) :
    b = 123 ∨ b = 49 ∨ b = 125 := by
  have hbytes : utf8 (objectText n) =
      ('{' :: (List.replicate n '1' ++ ['}'])).flatMap String.utf8EncodeChar := by
    simp only [utf8, objectText, String.toUTF8_eq_toByteArray, String.toByteArray_ofList,
      List.utf8Encode, List.data_toByteArray, List.toList_toArray]
  rw [hbytes] at h
  simp only [List.flatMap_cons, List.flatMap_append, List.mem_append, List.mem_flatMap,
    List.mem_replicate] at h
  rcases h with h | ⟨c, ⟨-, rfl⟩, h⟩ | h
  · simp_all [String.utf8EncodeChar]
  · simp_all [String.utf8EncodeChar]
  · simp_all [String.utf8EncodeChar]

section Table

variable [DecidableEq α] [Countable α] (table : List (α × String))

/-- The value's text in the table, or an object text of its own. -/
noncomputable def writeFrom (a : α) : String :=
  (table.lookup a).getD (objectText ((exists_injective_nat α).choose a))

open Classical in
/-- The value a text was written for, if it was written for one. -/
noncomputable def readFrom (text : String) : Option α :=
  if h : ∃ a, writeFrom table a = text then some h.choose else none

lemma writeFrom_cases (a : α) :
    (a, writeFrom table a) ∈ table ∨
      writeFrom table a = objectText ((exists_injective_nat α).choose a) := by
  rw [writeFrom]
  cases h : table.lookup a with
  | none => exact Or.inr rfl
  | some text =>
      obtain ⟨l₁, l₂, rfl, -⟩ := List.lookup_eq_some_iff.mp h
      exact Or.inl (by simp)

variable {table}

/-- Every text the table's writing writes is a single line that opens an object. -/
lemma writeFrom_shape (ok : TableOk table) (a : α) :
    (∃ c rest, (writeFrom table a).toList = '{' :: c :: rest) ∧
      lineFeed ∉ utf8 (writeFrom table a) ∧ carriageReturn ∉ utf8 (writeFrom table a) := by
  rcases writeFrom_cases table a with h | h
  · obtain ⟨hopens, hfeed, hreturn⟩ := ok.1 _ h
    refine ⟨⟨'"', (writeFrom table a).toList.drop 2, ?_⟩, hfeed, hreturn⟩
    calc (writeFrom table a).toList
        = (writeFrom table a).toList.take 2 ++ (writeFrom table a).toList.drop 2 :=
          (List.take_append_drop 2 _).symm
      _ = '{' :: '"' :: (writeFrom table a).toList.drop 2 := by rw [hopens]; rfl
  · rw [h]
    refine ⟨?_, fun hfeed => ?_, fun hreturn => ?_⟩
    · rw [toList_objectText]
      cases (exists_injective_nat α).choose a with
      | zero => exact ⟨'}', [], rfl⟩
      | succ n => exact ⟨'1', List.replicate n '1' ++ ['}'], rfl⟩
    · exact absurd (mem_utf8_objectText hfeed) (by decide)
    · exact absurd (mem_utf8_objectText hreturn) (by decide)

/-- No value's text is a prefix of another's. -/
lemma writeFrom_prefixFree (ok : TableOk table) {a b : α}
    (h : (writeFrom table a).toList <+: (writeFrom table b).toList) : a = b := by
  obtain ⟨⟨c, arest, ha⟩, -⟩ := writeFrom_shape ok a
  obtain ⟨⟨d, brest, hb⟩, -⟩ := writeFrom_shape ok b
  have hcd : c = d := by
    rw [ha, hb, List.cons_prefix_cons, List.cons_prefix_cons] at h
    exact h.2.1
  have hsecond : ∀ n c rest, (objectText n).toList = '{' :: c :: rest → c ≠ '"' := by
    intro n c rest hn
    cases n <;> simp_all [List.replicate_succ] <;> rintro rfl <;> simp_all
  have htabled : ∀ x ∈ table, ∀ c rest, x.2.toList = '{' :: c :: rest → c = '"' := by
    intro x hx c rest hn
    have hopens := (ok.1 x hx).1
    rw [hn] at hopens
    simpa using hopens
  rcases writeFrom_cases table a with ka | ka <;> rcases writeFrom_cases table b with kb | kb
  · exact ok.2 _ ka _ kb h
  · rw [kb] at hb
    exact absurd (hcd ▸ htabled _ ka _ _ ha) (hsecond _ _ _ hb)
  · rw [ka] at ha
    exact absurd (hcd ▸ htabled _ kb _ _ hb) (hsecond _ _ _ ha)
  · rw [ka, kb] at h
    exact (exists_injective_nat α).choose_spec (objectText_prefixFree h)

lemma readFrom_writeFrom (ok : TableOk table) (a : α) :
    readFrom table (writeFrom table a) = some a := by
  have hex : ∃ b, writeFrom table b = writeFrom table a := ⟨a, rfl⟩
  rw [readFrom, dif_pos hex]
  have hsame : (writeFrom table hex.choose).toList <+: (writeFrom table a).toList := by
    rw [hex.choose_spec]
  rw [writeFrom_prefixFree ok hsame]

variable (table)

/-- A way of writing the values that writes those in the table as the table says. -/
noncomputable def ofTable (ok : TableOk table) : JsonRecords α where
  write := writeFrom table
  read := readFrom table
  read_write := readFrom_writeFrom ok
  noLineFeed a := (writeFrom_shape ok a).2.1
  noCarriageReturn a := (writeFrom_shape ok a).2.2
  notBlank a := by
    obtain ⟨⟨c, rest, ha⟩, -⟩ := writeFrom_shape ok a
    rw [isBlank, ha, List.all_cons, Bool.and_eq_false_iff]
    exact Or.inl (by decide)
  trailing a rest hread := by
    obtain ⟨b, hb⟩ : ∃ b, writeFrom table b = writeFrom table a ++ rest := by
      by_contra hnone
      rw [readFrom, dif_neg hnone] at hread
      simp at hread
    have hprefixed : (writeFrom table a).toList <+: (writeFrom table b).toList := by
      rw [hb, String.toList_append]
      exact List.prefix_append _ _
    obtain rfl := writeFrom_prefixFree ok hprefixed
    have hempty : rest.toList = [] := by
      have hlist := congrArg String.toList hb
      rw [String.toList_append] at hlist
      exact List.self_eq_append_right.mp hlist
    simp [isBlank, hempty]

/-- Such a writing reads no text but objects. -/
lemma read_ofTable_of_not_object {table : List (α × String)} (ok : TableOk table) {text : String}
    (h : text.toList.head? ≠ some '\x7b') : (ofTable table ok).read text = none := by
  refine dif_neg ?_
  rintro ⟨a, rfl⟩
  obtain ⟨⟨c, rest, ha⟩, -⟩ := writeFrom_shape ok a
  rw [ha] at h
  exact h rfl

/-- What such a writing reads is what it wrote whole. -/
lemma cutUnread_ofTable (ok : TableOk table) : (ofTable table ok).CutUnread := by
  intro a front back hwritten hback
  by_contra hread
  obtain ⟨b, hb⟩ : ∃ b, writeFrom table b = front := by
    by_contra hnone
    exact hread (dif_neg hnone)
  have hall : writeFrom table a = front ++ back := hwritten
  have hprefixed : (writeFrom table b).toList <+: (writeFrom table a).toList := by
    rw [hb, hall, String.toList_append]
    exact List.prefix_append _ _
  obtain rfl := writeFrom_prefixFree ok hprefixed
  have hempty : back.toList = [] := by
    have hlist := congrArg String.toList (hb.symm.trans hall)
    rw [String.toList_append] at hlist
    exact List.self_eq_append_right.mp hlist
  exact hback (String.toList_eq_nil_iff.mp hempty)

end Table

end JsonRecords

end AssemblyLine
