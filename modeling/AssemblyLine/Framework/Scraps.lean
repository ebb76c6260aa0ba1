import AssemblyLine.Framework.Lines

/-!
# What is left of writes that fail

A write that fails may have written the beginning of what it was to write, and what is written next
then goes on the same line.  A `Scrap` is what was written of one value, all of it or its beginning,
and `Scraps` are the scraps on each line that was ended and on the line that was not.  A beginning
of what is written so is written so (`Scraps.cut`).

`OneToALine` is what a reader of whole documents makes of such a line: nothing, unless one whole
document is all there is on it.  `Scraps.read_lines` says of some scraps what is read of them, and
`JsonRecords.oneToALine_ofTable` that there are readers like that.

`failingSink` is a sink that fails as its list of answers has it, having handed on any part of what
it was given, in order; `Sink.line_spec` is what is left in it by a line that is written and
flushed.
-/

namespace AssemblyLine

universe u

/-! ## Scraps -/

/-- What was written of a value. -/
structure Scrap (α : Type u) where
  value : α
  bytes : List UInt8

/-- The bytes of some scraps on one line. -/
def bytesOn {α : Type u} (line : List (Scrap α)) : List UInt8 := line.flatMap Scrap.bytes

section Lines

variable {α : Type u}

/-- A scrap is the beginning of what is written of its value, or all of it. -/
def Scrap.Of (json : JsonLines α) (s : Scrap α) : Prop :=
  s.bytes ≠ [] ∧ s.bytes <+: utf8 (json.write s.value)

/-- All that is written of a value. -/
lemma Scrap.of_whole (json : JsonRecords α) (a : α) :
    (⟨a, utf8 (json.write a)⟩ : Scrap α).Of json.toJsonLines := by
  refine ⟨fun hempty => ?_, List.prefix_refl _⟩
  have hwritten : json.write a = "" := utf8_injective hempty
  have hblank := json.notBlank a
  rw [hwritten] at hblank
  cases hblank

/-- A line of documents, whole or cut short, reads only if it is one whole document. -/
def JsonRecords.OneToALine (json : JsonRecords α) : Prop :=
  ∀ line : List (Scrap α), (∀ s ∈ line, s.Of json.toJsonLines) →
    (json.read (fromUtf8Lossy (bytesOn line))).isSome →
    ∃ a, line = [⟨a, utf8 (json.write a)⟩]

/-- The value that stands on a line whole and alone. -/
def alone (json : JsonLines α) : List (Scrap α) → Option α
  | [s] => if s.bytes = utf8 (json.write s.value) then some s.value else none
  | _ => none

/-- What is read of a line of scraps is what stands on it whole and alone. -/
lemma read_bytesOn {json : JsonRecords α} (one : json.OneToALine) {line : List (Scrap α)}
    (hline : ∀ s ∈ line, s.Of json.toJsonLines) :
    json.read (fromUtf8Lossy (bytesOn line)) = alone json.toJsonLines line := by
  cases hread : json.read (fromUtf8Lossy (bytesOn line)) with
  | some a =>
      obtain ⟨b, rfl⟩ := one line hline (by rw [hread]; rfl)
      have hwhole : bytesOn [(⟨b, utf8 (json.write b)⟩ : Scrap α)] = utf8 (json.write b) := by
        simp [bytesOn]
      rw [hwhole, fromUtf8Lossy_utf8, json.read_write] at hread
      rw [← hread, alone, if_pos rfl]
  | none =>
      symm
      by_contra halone
      rw [alone.eq_def] at halone
      split at halone
      · rename_i s
        split at halone
        · rename_i hwhole
          have hbytes : bytesOn [s] = utf8 (json.write s.value) := by simp [bytesOn, hwhole]
          rw [hbytes, fromUtf8Lossy_utf8, json.read_write] at hread
          cases hread
        · exact halone rfl
      · exact halone rfl

lemma alone_of_two (json : JsonLines α) {line : List (Scrap α)} (s : Scrap α) (hline : line ≠ []) :
    alone json (line ++ [s]) = none := by
  obtain ⟨t, rest, rfl⟩ := List.exists_cons_of_ne_nil hline
  cases rest <;> rfl

/-- The beginning of a line of scraps is one. -/
lemma cut_line {json : JsonLines α} {line : List (Scrap α)} (hline : ∀ s ∈ line, s.Of json)
    {front : List UInt8} (hfront : front <+: bytesOn line) :
    ∃ cut : List (Scrap α), (∀ s ∈ cut, s.Of json) ∧ bytesOn cut = front ∧
      cut.map Scrap.value <+: line.map Scrap.value := by
  induction line generalizing front with
  | nil => exact ⟨[], by simp, (List.prefix_nil.mp hfront).symm, List.nil_prefix⟩
  | cons s line ih =>
      by_cases hempty : front = []
      · exact ⟨[], by simp, by rw [hempty]; rfl, List.nil_prefix⟩
      obtain ⟨hs, hrest⟩ := List.forall_mem_cons.mp hline
      obtain ⟨back, hback⟩ := hfront
      rcases List.append_eq_append_iff.mp (hback.trans (List.flatMap_cons ..)) with
        ⟨left, hleft, -⟩ | ⟨more, hmore, hmoreback⟩
      · -- the line ends inside the first scrap
        refine ⟨[⟨s.value, front⟩], ?_, by simp [bytesOn], ?_⟩
        · rw [List.forall_mem_singleton]
          exact ⟨hempty, (show front <+: s.bytes from ⟨left, hleft.symm⟩).trans hs.2⟩
        · exact ⟨line.map Scrap.value, rfl⟩
      · obtain ⟨cut, hcut, hbytes, hvalues⟩ := ih hrest ⟨back, hmoreback.symm⟩
        refine ⟨s :: cut, List.forall_mem_cons.mpr ⟨hs, hcut⟩, ?_, ?_⟩
        · rw [hmore, ← hbytes]
          rfl
        · rw [List.map_cons, List.map_cons, List.prefix_cons_inj]
          exact hvalues

/-- Only a line without scraps is empty. -/
lemma bytesOn_eq_nil {json : JsonLines α} {line : List (Scrap α)} (hline : ∀ s ∈ line, s.Of json) :
    bytesOn line = [] ↔ line = [] := by
  refine ⟨fun hempty => ?_, fun hempty => by rw [hempty]; rfl⟩
  by_contra hne
  obtain ⟨s, rest, rfl⟩ := List.exists_cons_of_ne_nil hne
  rw [bytesOn, List.flatMap_cons] at hempty
  exact (hline s List.mem_cons_self).1 (List.append_eq_nil_iff.mp hempty).1

/-- What stands alone on some lines is among the values written on them, in order. -/
lemma alone_sublist (json : JsonLines α) (lines : List (List (Scrap α))) :
    (lines.filterMap (alone json)).Sublist (lines.flatten.map Scrap.value) := by
  induction lines with
  | nil => exact List.Sublist.slnil
  | cons line lines ih =>
      rw [List.flatten_cons, List.map_append]
      cases halone : alone json line with
      | none =>
          rw [List.filterMap_cons_none halone]
          exact ih.trans (List.sublist_append_right _ _)
      | some a =>
          rw [List.filterMap_cons_some halone]
          have hvalue : line.map Scrap.value = [a] := by
            rw [alone.eq_def] at halone
            split at halone
            · split at halone
              · rw [← Option.some.inj halone]
                rfl
              · cases halone
            · cases halone
          rw [hvalue, List.singleton_append]
          exact ih.cons_cons a

lemma lineFeed_notMem_bytesOn {json : JsonLines α} {line : List (Scrap α)}
    (hline : ∀ s ∈ line, s.Of json) : lineFeed ∉ bytesOn line := by
  intro hmem
  obtain ⟨s, hs, hfeed⟩ := List.mem_flatMap.mp hmem
  exact json.noLineFeed s.value ((hline s hs).2.subset hfeed)

end Lines

/-- The scraps on the lines that were ended, and on the line that was not. -/
structure Scraps (α : Type u) where
  ended : List (List (Scrap α))
  opened : List (Scrap α)

namespace Scraps

variable {α : Type u}

def all (s : Scraps α) : List (Scrap α) := s.ended.flatten ++ s.opened

def bytes (s : Scraps α) : List UInt8 :=
  (s.ended.flatMap fun line => bytesOn line ++ [lineFeed]) ++ bytesOn s.opened

/-- Every scrap is one of the value it is said to be of. -/
def WellFormed (json : JsonLines α) (s : Scraps α) : Prop := ∀ scrap ∈ s.all, scrap.Of json

variable {json : JsonLines α} {s : Scraps α}

lemma WellFormed.line (wf : s.WellFormed json) {line : List (Scrap α)}
    (hline : line ∈ s.ended ++ [s.opened]) : ∀ scrap ∈ line, scrap.Of json := by
  intro scrap hscrap
  apply wf scrap
  rcases List.mem_append.mp hline with hended | hopened
  · exact List.mem_append_left _ (List.mem_flatten.mpr ⟨line, hended, hscrap⟩)
  · rw [List.mem_singleton.mp hopened] at hscrap
    exact List.mem_append_right _ hscrap

lemma splitOn_bytes (wf : s.WellFormed json) :
    s.bytes.splitOn lineFeed = s.ended.map bytesOn ++ [bytesOn s.opened] := by
  have hshape : s.bytes =
      ((s.ended.map bytesOn).flatMap fun l => l ++ [lineFeed]) ++ bytesOn s.opened := by
    simp [bytes, List.flatMap_map]
  rw [hshape]
  apply splitOn_lines
  · intro l hl
    obtain ⟨line, hline, rfl⟩ := List.mem_map.mp hl
    exact lineFeed_notMem_bytesOn (wf.line (List.mem_append_left _ hline))
  · exact lineFeed_notMem_bytesOn (wf.line (by simp))

/-- The beginning of what was written is written so too. -/
theorem cut (wf : s.WellFormed json) {front : List UInt8} (hfront : front <+: s.bytes) :
    ∃ t : Scraps α, t.WellFormed json ∧ t.bytes = front ∧
      t.all.map Scrap.value <+: s.all.map Scrap.value := by
  obtain ⟨ended, opened⟩ := s
  induction ended generalizing front with
  | nil =>
      obtain ⟨line, hline, hbytes, hvalues⟩ := cut_line (wf.line (by simp)) hfront
      exact ⟨⟨[], line⟩, hline, hbytes, hvalues⟩
  | cons line ended ih =>
      have hline : ∀ scrap ∈ line, scrap.Of json := wf.line (by simp)
      have hrest : (⟨ended, opened⟩ : Scraps α).WellFormed json := by
        intro scrap hscrap
        apply wf scrap
        rw [all, List.flatten_cons, List.append_assoc]
        exact List.mem_append_right _ hscrap
      have hvalues : (⟨line :: ended, opened⟩ : Scraps α).all.map Scrap.value =
          line.map Scrap.value ++ (⟨ended, opened⟩ : Scraps α).all.map Scrap.value := by
        simp [all]
      obtain ⟨back, hback⟩ := hfront
      have hbytes : front ++ back =
          (bytesOn line ++ [lineFeed]) ++ (⟨ended, opened⟩ : Scraps α).bytes := by
        rw [hback]
        simp [bytes]
      rcases List.append_eq_append_iff.mp hbytes with ⟨left, hleft, -⟩ | ⟨more, hmore, hmoreback⟩
      · by_cases hempty : left = []
        · -- just after the line feed
          refine ⟨⟨[line], []⟩, fun scrap hscrap => hline scrap (by simpa [all] using hscrap), ?_,
            ?_⟩
          · rw [hempty, List.append_nil] at hleft
            rw [← hleft]
            simp [bytes, bytesOn]
          · rw [hvalues]
            simp [all]
        · -- on the line
          have hon : front <+: bytesOn line := by
            obtain ⟨init, last, rfl⟩ := (List.eq_nil_or_concat' left).resolve_left hempty
            rw [← List.append_assoc] at hleft
            exact ⟨init, (List.append_inj' hleft rfl).1.symm⟩
          obtain ⟨cut, hcut, hcutbytes, hcutvalues⟩ := cut_line hline hon
          refine ⟨⟨[], cut⟩, by simpa [WellFormed, all] using hcut,
            by simpa [bytes] using hcutbytes, ?_⟩
          rw [hvalues]
          exact hcutvalues.trans (List.prefix_append _ _)
      · obtain ⟨t, ht, htbytes, htvalues⟩ := ih hrest ⟨back, hmoreback.symm⟩
        refine ⟨⟨line :: t.ended, t.opened⟩, ?_, ?_, ?_⟩
        · intro scrap hscrap
          rw [all, List.flatten_cons, List.append_assoc] at hscrap
          rcases List.mem_append.mp hscrap with hscrap | hscrap
          · exact hline scrap hscrap
          · exact ht scrap hscrap
        · rw [hmore, ← htbytes]
          simp [bytes]
        · rw [hvalues]
          have hcons : (⟨line :: t.ended, t.opened⟩ : Scraps α).all.map Scrap.value =
              line.map Scrap.value ++ t.all.map Scrap.value := by
            simp [all]
          rw [hcons]
          exact (List.prefix_append_right_inj _).mpr htvalues

/-- What is read of the lines of some scraps: what stands whole and alone on one. -/
theorem read_lines {json : JsonRecords α} (one : json.OneToALine)
    (wf : s.WellFormed json.toJsonLines) :
    (segments lineFeed s.bytes).filterMap (fun line => json.read (fromUtf8Lossy line)) =
      (s.ended ++ [s.opened]).filterMap (alone json.toJsonLines) := by
  have hread : ∀ line ∈ s.ended ++ [s.opened], json.read (fromUtf8Lossy (bytesOn line)) =
      alone json.toJsonLines line := fun line hline => read_bytesOn one (wf.line hline)
  have hended : (s.ended.map bytesOn).filterMap (fun line => json.read (fromUtf8Lossy line)) =
      s.ended.filterMap (alone json.toJsonLines) := by
    rw [List.filterMap_map]
    exact List.filterMap_congr fun line hline => hread line (List.mem_append_left _ hline)
  rw [segments, splitOn_bytes wf, List.dropLast_concat, List.getLast?_concat, List.filterMap_append,
    List.filterMap_append, hended]
  congr 1
  have hopened := hread s.opened (by simp)
  by_cases hempty : bytesOn s.opened = []
  · have hscraps : ∀ scrap ∈ s.opened, scrap.Of json.toJsonLines := wf.line (by simp)
    rw [hempty, (bytesOn_eq_nil hscraps).mp hempty]
    rfl
  · rw [Option.filter_some_pos (by simpa using hempty)]
    simp only [Option.toList_some, List.filterMap_cons, List.filterMap_nil, hopened]

end Scraps

/-! ## A sink that fails -/

/-- What a sink does with one write or flush. -/
structure SinkAnswer where
  ok : Bool
  /-- How many of the bytes it was given, and has not handed on, it hands on. -/
  handed : ℕ
  /-- How many of the rest it still holds, when it fails. -/
  kept : ℕ
deriving DecidableEq, Repr

/-- A sink, and what it will answer; once its answers are used up it fails no more. -/
structure Sink where
  /-- What it has handed on. -/
  stream : List UInt8
  held : List UInt8
  answers : List SinkAnswer
deriving DecidableEq, Repr

/-- A line, its line feed, and a flush: what every writer of lines does. -/
def WriteTo.line {W : Type} (dest : WriteTo W) (sink : W) (bytes : List UInt8) : W × Bool :=
  match dest.writeAll sink bytes with
  | (sink, false) => (sink, false)
  | (sink, true) =>
    match dest.writeAll sink [lineFeed] with
    | (sink, false) => (sink, false)
    | (sink, true) => dest.flush sink

namespace Sink

/-- All it was given and has not dropped. -/
def given (s : Sink) : List UInt8 := s.stream ++ s.held

/-- Answer to some bytes, or to a flush. -/
def answer (s : Sink) (flushing : Bool) (bytes : List UInt8) : Sink × Bool :=
  let pending := s.held ++ bytes
  match s.answers with
  | [] => if flushing then (⟨s.stream ++ pending, [], []⟩, true) else
      (⟨s.stream, pending, []⟩, true)
  | a :: answers =>
    if a.ok then
      if flushing then (⟨s.stream ++ pending, [], answers⟩, true)
      else (⟨s.stream ++ pending.take a.handed, pending.drop a.handed, answers⟩, true)
    else (⟨s.stream ++ pending.take a.handed, (pending.drop a.handed).take a.kept, answers⟩, false)

/-- A sink that answers as its list has it.  A write that succeeds may keep the bytes until the next
flush; one that fails, and a flush that fails, may have handed on any part of them. -/
def failing : WriteTo Sink where
  writeAll s bytes := s.answer false bytes
  flush s := s.answer true []

variable {s t : Sink} {flushing ok : Bool} {bytes : List UInt8}

/-- What an answer does to what was given: what is handed on stays handed on, and what is given is
there in order, all of it if the answer is that it succeeded. -/
lemma answer_spec (h : s.answer flushing bytes = (t, ok)) :
    s.stream <+: t.stream ∧ t.given <+: s.given ++ bytes ∧
      (ok = true → t.given = s.given ++ bytes) ∧ (ok = true → flushing = true → t.held = []) := by
  unfold answer at h
  cases hanswers : s.answers with
  | nil =>
      rw [hanswers] at h
      cases flushing <;> cases h
      · exact ⟨List.prefix_refl _, by simp [given], by simp [given], by simp⟩
      · exact ⟨List.prefix_append _ _, by simp [given], by simp [given], by simp⟩
  | cons a answers =>
      rw [hanswers] at h
      dsimp only at h
      cases hok : a.ok with
      | false =>
          rw [hok] at h
          cases h
          refine ⟨List.prefix_append _ _, ?_, by simp, by simp⟩
          rw [given, given, List.append_assoc, List.append_assoc, List.prefix_append_right_inj]
          have hkept := List.take_prefix a.kept ((s.held ++ bytes).drop a.handed)
          exact (List.prefix_append_right_inj _).mpr hkept |>.trans
            (by rw [List.take_append_drop])
      | true =>
          rw [hok] at h
          cases flushing <;> cases h
          · refine ⟨List.prefix_append _ _, ?_, fun _ => ?_, by simp⟩ <;>
              simp [given, List.append_assoc]
          · exact ⟨List.prefix_append _ _, by simp [given], by simp [given], by simp⟩

/-- What a line leaves: all of it and its line feed, handed on, when it succeeds; and when it fails
the beginning of what it was to write, at least what was handed on before. -/
theorem line_spec (h : failing.line s bytes = (t, ok)) :
    s.stream <+: t.stream ∧ t.given <+: s.given ++ (bytes ++ [lineFeed]) ∧
      (ok = true → t.stream = s.given ++ (bytes ++ [lineFeed]) ∧ t.held = []) := by
  unfold WriteTo.line at h
  cases hwrite : failing.writeAll s bytes with
  | mk s₁ ok₁ =>
      obtain ⟨hstream₁, hprefix₁, hgiven₁, -⟩ := answer_spec hwrite
      rw [hwrite] at h
      cases ok₁ with
      | false =>
          cases h
          refine ⟨hstream₁, hprefix₁.trans ?_, by simp⟩
          rw [← List.append_assoc]
          exact List.prefix_append _ _
      | true =>
          dsimp only at h
          rw [← List.append_assoc, ← hgiven₁ rfl]
          cases hfeed : failing.writeAll s₁ [lineFeed] with
          | mk s₂ ok₂ =>
              obtain ⟨hstream₂, hprefix₂, hgiven₂, -⟩ := answer_spec hfeed
              rw [hfeed] at h
              cases ok₂ with
              | false =>
                  cases h
                  exact ⟨hstream₁.trans hstream₂, hprefix₂, by simp⟩
              | true =>
                  dsimp only at h
                  obtain ⟨hstream₃, hprefix₃, hgiven₃, hheld⟩ := answer_spec h
                  rw [List.append_nil, hgiven₂ rfl] at hprefix₃ hgiven₃
                  refine ⟨hstream₁.trans (hstream₂.trans hstream₃), hprefix₃, fun hok => ?_⟩
                  have hnone := hheld hok rfl
                  have hall := hgiven₃ hok
                  rw [given, hnone, List.append_nil] at hall
                  exact ⟨hall, hnone⟩

end Sink

/-! ## A reader of whole documents -/

lemma utf8_eq_flatMap (s : String) : utf8 s = s.toList.flatMap String.utf8EncodeChar := by
  have hlist : s = String.ofList s.toList := String.ofList_toList.symm
  conv_lhs => rw [hlist]
  simp only [utf8, String.toUTF8_eq_toByteArray, String.toByteArray_ofList, List.utf8Encode,
    List.data_toByteArray, List.toList_toArray]

/-- Bytes below 128 are text. -/
lemma exists_utf8_of_plain {bytes : List UInt8} (hplain : ∀ b ∈ bytes, b < 128) :
    ∃ text, utf8 text = bytes := by
  have hencoded : ∀ n : Fin 128, String.utf8EncodeChar (Char.ofNat n) = [UInt8.ofNat n] := by decide
  refine ⟨String.ofList (bytes.map fun b => Char.ofNat b.toNat), ?_⟩
  rw [utf8_eq_flatMap, String.toList_ofList, List.flatMap_map]
  induction bytes with
  | nil => rfl
  | cons b bytes ih =>
      obtain ⟨hb, hrest⟩ := List.forall_mem_cons.mp hplain
      have hbyte := hencoded ⟨b.toNat, UInt8.lt_iff_toNat_lt.mp hb⟩
      rw [List.flatMap_cons, ih hrest, hbyte]
      simp

namespace JsonRecords

variable {α : Type u}

/-- The texts of a table are plain, and an object inside one does not open as they do. -/
def PlainTable (table : List (α × String)) : Prop :=
  ∀ x ∈ table, (utf8 x.2).all (· < 128) = true ∧
    ∀ inner ∈ (utf8 x.2).tail.tails, inner.head? = some 123 →
      inner[1]? = some 34 ∧ inner[2]? ≠ none ∧ inner[2]? ≠ some 123 ∧
        ∀ y ∈ table, inner[2]? ≠ (utf8 y.2)[2]?

instance (table : List (α × String)) : Decidable (PlainTable table) := by
  unfold PlainTable
  infer_instance

lemma utf8_objectText (n : ℕ) : utf8 (objectText n) = 123 :: (List.replicate n 49 ++ [125]) := by
  have hdigit : String.utf8EncodeChar '1' = [49] := by decide
  rw [utf8_eq_flatMap, toList_objectText, List.flatMap_cons, List.flatMap_append,
    List.flatMap_replicate, hdigit, List.flatten_replicate_singleton]
  rfl

variable [DecidableEq α] [Countable α] {table : List (α × String)}

lemma utf8_writeFrom (ok : TableOk table) (a : α) :
    ∃ rest, utf8 (writeFrom table a) = 123 :: rest := by
  obtain ⟨⟨c, rest, ha⟩, -⟩ := writeFrom_shape ok a
  rw [utf8_eq_flatMap, ha]
  exact ⟨_, rfl⟩

lemma plain_writeFrom (plain : PlainTable table) (a : α) :
    ∀ b ∈ utf8 (writeFrom table a), b < 128 := by
  rcases writeFrom_cases table a with htable | hobject
  · intro b hb
    simpa using List.all_eq_true.mp (plain _ htable).1 b hb
  · intro b hb
    rw [hobject] at hb
    rcases mem_utf8_objectText hb with rfl | rfl | rfl <;> decide

/-- No text goes on, after some of it, with another's beginning and what opens as texts do. -/
lemma not_joined (ok : TableOk table) (plain : PlainTable table) {a b : α}
    {front inner rest : List UInt8} (hfront : front ≠ []) (hinner : inner ≠ [])
    (hof : inner <+: utf8 (writeFrom table a)) (hrest : rest.head? = none ∨ rest.head? = some 123) :
    utf8 (writeFrom table b) ≠ front ++ (inner ++ rest) := by
  intro hjoined
  obtain ⟨opening, ha⟩ := utf8_writeFrom ok a
  obtain ⟨c, front, rfl⟩ := List.exists_cons_of_ne_nil hfront
  obtain ⟨d, inner, rfl⟩ := List.exists_cons_of_ne_nil hinner
  rw [ha, List.cons_prefix_cons] at hof
  obtain ⟨rfl, hof⟩ := hof
  rcases writeFrom_cases table b with htable | hobject
  · have hinside : 123 :: inner ++ rest ∈ (utf8 (writeFrom table b)).tail.tails := by
      rw [hjoined, List.mem_tails]
      exact ⟨front, rfl⟩
    obtain ⟨hquote, hmore, hnested, hthird⟩ := (plain _ htable).2 _ hinside rfl
    cases inner with
    | nil =>
        have hnext : rest.head? = some 34 := by
          rw [List.head?_eq_getElem?]
          exact hquote
        rcases hrest with hnone | hsome
        · rw [hnone] at hnext
          cases hnext
        · rw [hsome] at hnext
          cases hnext
    | cons d inner =>
        obtain rfl : d = 34 := Option.some.inj hquote
        rcases writeFrom_cases table a with hatable | haobject
        · cases inner with
          | nil =>
              rw [List.head?_eq_getElem?] at hrest
              exact hrest.elim hmore hnested
          | cons e inner =>
              obtain ⟨more, hgoes⟩ := hof
              have hsame : some e = (utf8 (writeFrom table a))[2]? := by
                rw [ha, ← hgoes]
                rfl
              exact hthird _ hatable hsame
        · rw [haobject, utf8_objectText, List.cons.injEq] at ha
          obtain ⟨more, hgoes⟩ := hof
          rw [← ha.2] at hgoes
          cases hn : (exists_injective_nat α).choose a with
          | zero => simp [hn] at hgoes
          | succ n => simp [hn, List.replicate_succ] at hgoes
  · rw [hobject, utf8_objectText, List.cons_append, List.cons.injEq] at hjoined
    have hmem : (123 : UInt8) ∈
        List.replicate ((exists_injective_nat α).choose b) 49 ++ [(125 : UInt8)] := by
      rw [hjoined.2]
      simp
    simp at hmem

/-- A table of plain texts gives a reader of whole documents. -/
lemma oneToALine_ofTable (ok : TableOk table) (plain : PlainTable table) :
    (ofTable table ok).OneToALine := by
  intro line hline hread
  have hof : ∀ s ∈ line, s.bytes ≠ [] ∧ s.bytes <+: utf8 (writeFrom table s.value) := hline
  have hopens : ∀ s ∈ line, s.bytes.head? = some 123 := by
    intro s hs
    obtain ⟨hne, hprefix⟩ := hof s hs
    obtain ⟨rest, hrest⟩ := utf8_writeFrom ok s.value
    obtain ⟨c, bytes, hbytes⟩ := List.exists_cons_of_ne_nil hne
    rw [hrest, hbytes, List.cons_prefix_cons] at hprefix
    rw [hbytes, hprefix.1]
    rfl
  obtain ⟨text, htext⟩ : ∃ text, utf8 text = bytesOn line := by
    apply exists_utf8_of_plain
    intro b hb
    obtain ⟨s, hs, hb⟩ := List.mem_flatMap.mp hb
    exact plain_writeFrom plain s.value b ((hof s hs).2.subset hb)
  rw [← htext, fromUtf8Lossy_utf8] at hread
  obtain ⟨b, hb⟩ : ∃ b, writeFrom table b = text := by
    by_contra hnone
    rw [show (ofTable table ok).read text = none from dif_neg hnone] at hread
    cases hread
  rw [← hb] at htext
  cases line with
  | nil =>
      obtain ⟨rest, hrest⟩ := utf8_writeFrom ok b
      rw [hrest] at htext
      cases htext
  | cons s line =>
      cases line with
      | nil =>
          have hwhole : bytesOn [s] = s.bytes := List.append_nil _
          rw [hwhole] at htext
          obtain ⟨-, back, hback⟩ := hof s List.mem_cons_self
          rw [← htext] at hback
          obtain ⟨more, hmore⟩ := exists_append_of_fromUtf8 hback.symm (fromUtf8_utf8 _)
          have hprefixed : (writeFrom table b).toList <+: (writeFrom table s.value).toList := by
            rw [hmore, String.toList_append]
            exact List.prefix_append _ _
          obtain rfl := writeFrom_prefixFree ok hprefixed
          refine ⟨s.value, ?_⟩
          rw [show (ofTable table ok).write s.value = writeFrom table s.value from rfl, htext]
      | cons t line =>
          have hs := hof s List.mem_cons_self
          have ht := hof t (List.mem_cons_of_mem _ List.mem_cons_self)
          have hrest : (bytesOn line).head? = none ∨ (bytesOn line).head? = some 123 := by
            cases line with
            | nil => exact Or.inl rfl
            | cons u line =>
                have hu := hopens u (by simp)
                refine Or.inr ?_
                rw [bytesOn, List.flatMap_cons, List.head?_append, hu]
                rfl
          exact absurd htext (not_joined ok plain hs.1 ht.1 ht.2 hrest)

end JsonRecords

end AssemblyLine
