import AssemblyLine.Framework.Lines
import AssemblyLine.Framework.Machine
import AssemblyLine.Log.Event
import Mathlib.Data.List.Induction

/-!
# A job's log, and the handles that append to it

`readEvents` reads a log back, skipping what does not parse.  `EventLog.writeLine` is one append:
the event's line, then its newline, then a flush.  Those are two writes, and several handles are
open on one file at a time, so `SharedLog` is the file with its handles, and takes one write of
one handle as its step.

`keepsAll_iff` says exactly which interleavings lose nothing: those in which every line is
followed at once by the newline of the same append.  In any other two lines come to stand between
two newlines, and neither is read (`loses_joined_lines` has the shortest such run).
-/

namespace AssemblyLine

/-! ## Reading -/

/-- Parse a newline-delimited event stream; `none` when it is not text.  A line that does not
parse is skipped, not fatal. -/
def readEvents (json : JsonLines Event) (bytes : List UInt8) : Option (List Event) :=
  ((bufLines bytes).mapM fromUtf8).map fun lines =>
    (lines.filter fun line => !isBlank line).filterMap json.read

/-! ## Appending -/

/-- An append-only event sink. -/
structure EventLog (W : Type) where
  sink : W

namespace EventLog

variable {W : Type} (json : JsonLines Event) (dest : WriteTo W)

/-- Append one event's line and flush; `false` when the sink failed. -/
def writeLine (log : EventLog W) (event : Event) : EventLog W × Bool :=
  match dest.writeAll log.sink (utf8 (json.write event)) with
  | (sink, false) => (⟨sink⟩, false)
  | (sink, true) =>
    match dest.writeAll sink [lineFeed] with
    | (sink, false) => (⟨sink⟩, false)
    | (sink, true) =>
      match dest.flush sink with
      | (sink, flushed) => (⟨sink⟩, flushed)

/-- Append one event, stamped `now`. -/
def append (log : EventLog W) (now : Instant) (kind : EventKind) : EventLog W × Option Event :=
  match log.writeLine json dest ⟨now, kind⟩ with
  | (log, true) => (log, some ⟨now, kind⟩)
  | (log, false) => (log, none)

/-- Append an event exactly as a round recorded it. -/
def appendCollected (log : EventLog W) (event : Event) : EventLog W × Bool :=
  log.writeLine json dest event

end EventLog

/-! ## Several handles on one file -/

/-- One `write_all` of an append, by the handle that makes it. -/
inductive LogWrite (H : Type)
  | line (h : H) (e : Event)
  | newline (h : H)
deriving DecidableEq, Repr

/-- The file, and how far each handle's append has got. -/
structure SharedLog (H : Type) where
  bytes : List UInt8
  /-- The event whose line the handle has written, while its newline is still to come. -/
  pending : H → Option Event
  /-- The events whose append returned `Ok`, in the order they returned. -/
  returned : List (H × Event)

namespace SharedLog

variable {H : Type}

/-- An empty file, and no append under way. -/
def empty : SharedLog H := ⟨[], fun _ => none, []⟩

/-- Every append has returned. -/
def Quiet (s : SharedLog H) : Prop := ∀ h, s.pending h = none

/-- Reading the log returns every event whose append returned, exactly once, in an order that
keeps each handle's own. -/
def KeepsAll [DecidableEq H] (json : JsonLines Event) (s : SharedLog H) : Prop :=
  ∃ tagged : List (H × Event), readEvents json s.bytes = some (tagged.map Prod.snd) ∧
    ∀ h, tagged.filter (fun x => x.1 = h) = s.returned.filter (fun x => x.1 = h)

variable [DecidableEq H] (json : JsonLines Event)

/-- One write at the end of the file.  A handle writes its newline after its line, and begins
no append before the last one has returned. -/
def step (s : SharedLog H) : LogWrite H → Option (SharedLog H)
  | .line h e =>
    if (s.pending h).isNone then
      some { s with
        bytes := s.bytes ++ utf8 (json.write e)
        pending := Function.update s.pending h (some e) }
    else none
  | .newline h =>
    (s.pending h).map fun e =>
      { bytes := s.bytes ++ [lineFeed]
        pending := Function.update s.pending h none
        returned := s.returned ++ [(h, e)] }

/-- The writes of appends made one after the other. -/
def appends (calls : List (H × Event)) : List (LogWrite H) :=
  calls.flatMap fun call => [.line call.1 call.2, .newline call.1]

/-! ## What an interleaving does to the lines -/

/-- The bytes of one write. -/
def bytesOf : LogWrite H → List UInt8
  | .line _ e => utf8 (json.write e)
  | .newline _ => [lineFeed]

/-- Whether a write ends a line. -/
def isNewline : LogWrite H → Bool
  | .line _ _ => false
  | .newline _ => true

/-- The events whose texts stand between two newlines, group by group, and those after the last
newline, when `opened` are already there. -/
def groups (opened : List Event) : List (LogWrite H) → List (List Event) × List Event
  | [] => ([], opened)
  | .line _ e :: writes => groups (opened ++ [e]) writes
  | .newline _ :: writes => (opened :: (groups [] writes).1, (groups [] writes).2)

/-- The text of events written on one line. -/
def textOf (events : List Event) : String := events.foldr (fun e text => json.write e ++ text) ""

lemma textOf_snoc (events : List Event) (e : Event) :
    textOf json (events ++ [e]) = textOf json events ++ json.write e := by
  induction events with
  | nil => simp [textOf]
  | cons a events ih =>
      have hcons : ∀ l, textOf json (a :: l) = json.write a ++ textOf json l := fun _ => rfl
      rw [List.cons_append, hcons, hcons, ih, String.append_assoc]

omit [DecidableEq H] in
/-- The bytes of some writes are their groups, each ended by a newline. -/
lemma flatMap_bytesOf (writes : List (LogWrite H)) (opened : List Event) :
    utf8 (textOf json opened) ++ writes.flatMap (bytesOf json) =
      ((groups opened writes).1.flatMap fun g => utf8 (textOf json g) ++ [lineFeed]) ++
        utf8 (textOf json (groups opened writes).2) := by
  induction writes generalizing opened with
  | nil => simp [groups]
  | cons w writes ih =>
      cases w with
      | line h e =>
          rw [groups, ← ih, textOf_snoc, utf8_append]
          simp [bytesOf]
      | newline h =>
          have hrest := ih []
          simp only [textOf, List.foldr_nil, utf8_empty, List.nil_append] at hrest
          simp [groups, bytesOf, hrest, textOf]

omit [DecidableEq H] in
lemma length_groups (writes : List (LogWrite H)) (opened : List Event) :
    (groups opened writes).1.length = writes.countP isNewline := by
  induction writes generalizing opened with
  | nil => rfl
  | cons w writes ih =>
      cases w with
      | line h e => rw [groups, ih, List.countP_cons_of_neg (by simp [isNewline])]
      | newline h =>
          rw [groups, List.length_cons, ih, List.countP_cons_of_pos (by simp [isNewline])]

omit [DecidableEq H] in
/-- What is written while a line is open joins that line's group. -/
lemma exists_group_of_opened {writes : List (LogWrite H)} {opened : List Event}
    (hopened : opened ≠ []) (hclosed : (groups opened writes).2 = []) :
    ∃ g ∈ (groups opened writes).1, opened <+: g := by
  induction writes generalizing opened with
  | nil => exact absurd hclosed hopened
  | cons w writes ih =>
      cases w with
      | line h e =>
          have hsnoc : opened ++ [e] ≠ [] := by simp
          obtain ⟨g, hg, hprefixed⟩ := ih hsnoc hclosed
          exact ⟨g, hg, (List.prefix_append _ _).trans hprefixed⟩
      | newline h => exact ⟨opened, by simp [groups], List.prefix_refl _⟩

omit [DecidableEq H] in
lemma groups_appends (calls : List (H × Event)) (writes : List (LogWrite H)) :
    groups [] (appends calls ++ writes) =
      ((calls.map fun call => [call.2]) ++ (groups [] writes).1, (groups [] writes).2) := by
  induction calls with
  | nil => simp [appends]
  | cons call calls ih =>
      have hcons : appends (call :: calls) ++ writes =
          .line call.1 call.2 :: .newline call.1 :: (appends calls ++ writes) := by
        simp [appends]
      rw [hcons, groups, groups, ih]
      rfl

/-! ## What the writes leave in the file -/

variable {json} {s t : SharedLog H} {writes : List (LogWrite H)}

lemma bytes_of_exec (h : exec (step json) s writes = some t) :
    t.bytes = s.bytes ++ writes.flatMap (bytesOf json) := by
  induction writes generalizing s with
  | nil => simp_all [exec]
  | cons w writes ih =>
      obtain ⟨m, hm, hrest⟩ := Option.bind_eq_some_iff.mp h
      have hbytes : m.bytes = s.bytes ++ bytesOf json w := by
        cases w with
        | line k e =>
            simp only [step, Option.ite_none_right_eq_some, Option.some.injEq] at hm
            rw [← hm.2, bytesOf]
        | newline k =>
            obtain ⟨e, -, rfl⟩ := Option.map_eq_some_iff.mp hm
            rfl
      rw [ih hrest, hbytes, List.flatMap_cons, List.append_assoc]

lemma length_returned_of_exec (h : exec (step json) s writes = some t) :
    t.returned.length = s.returned.length + writes.countP isNewline := by
  induction writes generalizing s with
  | nil => simp_all [exec]
  | cons w writes ih =>
      obtain ⟨m, hm, hrest⟩ := Option.bind_eq_some_iff.mp h
      rw [ih hrest, List.countP_cons]
      cases w with
      | line k e =>
          simp only [step, Option.ite_none_right_eq_some, Option.some.injEq] at hm
          rw [← hm.2]
          simp [isNewline]
      | newline k =>
          obtain ⟨e, -, rfl⟩ := Option.map_eq_some_iff.mp hm
          simp [isNewline]
          omega

/-- A line left open belongs to an append that has not returned. -/
lemma groups_closed_of_exec (h : exec (step json) s writes = some t) (hquiet : t.Quiet)
    {opened : List Event} (hopened : opened ≠ [] → ∃ k, s.pending k ≠ none) :
    (groups opened writes).2 = [] := by
  induction writes generalizing s opened with
  | nil =>
      obtain rfl : s = t := by simpa [exec] using h
      by_contra hne
      obtain ⟨k, hk⟩ := hopened hne
      exact hk (hquiet k)
  | cons w writes ih =>
      obtain ⟨m, hm, hrest⟩ := Option.bind_eq_some_iff.mp h
      cases w with
      | line k e =>
          simp only [step, Option.ite_none_right_eq_some, Option.some.injEq] at hm
          refine ih hrest fun _ => ⟨k, ?_⟩
          rw [← hm.2]
          simp
      | newline k => exact ih hrest fun hne => absurd rfl hne

/-- Appends made one after the other from a quiet file leave their lines and their events. -/
lemma exec_appends (calls : List (H × Event)) (hquiet : s.Quiet) :
    exec (step json) s (appends calls) =
      some ⟨s.bytes ++ json.bytesOf (calls.map Prod.snd), s.pending, s.returned ++ calls⟩ := by
  induction calls generalizing s with
  | nil => simp [appends, exec]
  | cons call calls ih =>
      obtain ⟨k, e⟩ := call
      have hpair : exec (step json) s (appends ((k, e) :: calls)) =
          exec (step json)
            ⟨s.bytes ++ utf8 (json.write e) ++ [lineFeed], s.pending, s.returned ++ [(k, e)]⟩
            (appends calls) := by
        have hidle : Function.update s.pending k none = s.pending := by
          rw [← hquiet k, Function.update_eq_self]
        simp [appends, exec, step, hquiet k, hidle]
      have hstill : (⟨s.bytes ++ utf8 (json.write e) ++ [lineFeed], s.pending,
          s.returned ++ [(k, e)]⟩ : SharedLog H).Quiet := hquiet
      rw [hpair, ih hstill]
      simp [JsonLines.bytesOf]

/-- From a quiet file to a quiet file, either every line is followed at once by its newline, or
somewhere two lines are written one after the other. -/
lemma exec_cases : ∀ {s : SharedLog H} (writes : List (LogWrite H)), s.Quiet →
    exec (step json) s writes = some t → t.Quiet →
    (∃ calls, writes = appends calls) ∨
      ∃ calls h e k f rest, writes = appends calls ++ .line h e :: .line k f :: rest
  | _, [], _, _, _ => Or.inl ⟨[], rfl⟩
  | s, .newline k :: writes, hquiet, hexec, _ => by
      simp [exec, step, hquiet k] at hexec
  | s, [.line k e], hquiet, hexec, hdone => by
      simp only [exec, step, hquiet k, Option.isNone_none, if_true, Option.bind_some,
        Option.some.injEq] at hexec
      have hopen := hdone k
      rw [← hexec] at hopen
      simp at hopen
  | s, .line k e :: .line k' e' :: writes, _, _, _ => Or.inr ⟨[], k, e, k', e', writes, rfl⟩
  | s, .line k e :: .newline k' :: writes, hquiet, hexec, hdone => by
      have hk : k' = k := by
        by_contra hne
        simp [exec, step, hquiet k, Function.update_of_ne hne, hquiet k'] at hexec
      subst hk
      have hrest := exec_cases (s := ⟨s.bytes ++ utf8 (json.write e) ++ [lineFeed], s.pending,
        s.returned ++ [(k', e)]⟩) writes hquiet (by
          have hidle : Function.update s.pending k' none = s.pending := by
            rw [← hquiet k', Function.update_eq_self]
          simpa [exec, step, hquiet k', hidle] using hexec) hdone
      rcases hrest with ⟨calls, rfl⟩ | ⟨calls, h, e₁, k₂, e₂, rest, rfl⟩
      · exact Or.inl ⟨(k', e) :: calls, rfl⟩
      · exact Or.inr ⟨(k', e) :: calls, h, e₁, k₂, e₂, rest, rfl⟩

/-! ## What is read back -/

section Reading

variable {json : JsonRecords Event}

/-- What becomes of one line: an event, or nothing. -/
def readLine (json : JsonLines Event) (line : String) : Option Event :=
  if isBlank line then none else json.read line

lemma readEvents_eq (json : JsonLines Event) (bytes : List UInt8) :
    readEvents json bytes =
      ((bufLines bytes).mapM fromUtf8).map fun lines => lines.filterMap (readLine json) := by
  rw [readEvents]
  congr 1
  funext lines
  rw [List.filterMap_filter]
  apply List.filterMap_congr
  intro line _
  cases h : isBlank line <;> simp [readLine, h]

lemma mapM_fromUtf8 (texts : List String) : (texts.map utf8).mapM fromUtf8 = some texts := by
  induction texts with
  | nil => rfl
  | cons text texts ih => simp [ih]

lemma notMem_utf8_textOf {b : UInt8} (hb : ∀ e, b ∉ utf8 (json.write e)) (events : List Event) :
    b ∉ utf8 (textOf json.toJsonLines events) := by
  induction events with
  | nil => simp [textOf]
  | cons e events ih =>
      have hcons : textOf json.toJsonLines (e :: events) =
          json.write e ++ textOf json.toJsonLines events := rfl
      rw [hcons, utf8_append, List.mem_append]
      exact fun h => h.elim (hb e) ih

/-- Terminated lines are read line by line, once all of them decode. -/
lemma readEvents_lines {lines : List (List UInt8)}
    (hlines : ∀ l ∈ lines, lineFeed ∉ l ∧ carriageReturn ∉ l) :
    readEvents json.toJsonLines (lines.flatMap fun l => l ++ [lineFeed]) =
      (lines.mapM fromUtf8).map fun texts => texts.filterMap (readLine json.toJsonLines) := by
  rw [readEvents_eq, bufLines_lines (fun l hl => (hlines l hl).1) (fun l hl => (hlines l hl).2)]

/-- Lines that hold one event each are read as those events. -/
lemma filterMap_readLine (events : List Event) :
    (events.map json.write).filterMap (readLine json.toJsonLines) = events := by
  rw [List.filterMap_map]
  refine (List.filterMap_congr fun e _ => ?_).trans List.filterMap_some
  rw [Function.comp_apply, readLine, json.notBlank e, if_neg (by decide), json.read_write]

/-- Groups of events, each ended by a newline, are read group by group. -/
lemma readEvents_groups (lines : List (List Event)) :
    readEvents json.toJsonLines
        (lines.flatMap fun g => utf8 (textOf json.toJsonLines g) ++ [lineFeed]) =
      some (lines.filterMap fun g => readLine json.toJsonLines (textOf json.toJsonLines g)) := by
  have hbytes : (lines.flatMap fun g => utf8 (textOf json.toJsonLines g) ++ [lineFeed]) =
      ((lines.map (textOf json.toJsonLines)).map utf8).flatMap fun l => l ++ [lineFeed] := by
    simp [List.flatMap_map]
  have hmem : ∀ l ∈ (lines.map (textOf json.toJsonLines)).map utf8,
      lineFeed ∉ l ∧ carriageReturn ∉ l := by
    intro l hl
    simp only [List.map_map, List.mem_map, Function.comp_apply] at hl
    obtain ⟨g, -, rfl⟩ := hl
    exact ⟨notMem_utf8_textOf json.noLineFeed g, notMem_utf8_textOf json.noCarriageReturn g⟩
  rw [hbytes, readEvents_lines hmem, mapM_fromUtf8, Option.map_some, List.filterMap_map]
  rfl

/-- A line with one event on it is that event. -/
lemma readLine_single (e : Event) :
    readLine json.toJsonLines (textOf json.toJsonLines [e]) = some e := by
  have htext : textOf json.toJsonLines [e] = json.write e := by simp [textOf]
  rw [htext, readLine, json.notBlank e, if_neg (by decide), json.read_write]

/-- A line with two events on it is not read. -/
lemma readLine_joined {g : List Event} {e f : Event} (h : [e, f] <+: g) :
    readLine json.toJsonLines (textOf json.toJsonLines g) = none := by
  obtain ⟨rest, rfl⟩ := h
  have htext : textOf json.toJsonLines ([e, f] ++ rest) =
      json.write e ++ (json.write f ++ textOf json.toJsonLines rest) := rfl
  rw [htext, readLine, json.read_joined]
  split <;> rfl

/-- Lines written one to a newline are read back as they were appended. -/
lemma readEvents_bytesOf (events : List Event) :
    readEvents json.toJsonLines (json.bytesOf events) = some events := by
  have hbytes : json.bytesOf events = ((events.map fun e => [e]).flatMap
      fun g => utf8 (textOf json.toJsonLines g) ++ [lineFeed]) := by
    simp [JsonLines.bytesOf, List.flatMap_map, textOf]
  rw [hbytes, readEvents_groups, List.filterMap_map]
  simp [readLine_single]

/-- What two handles wrote on one line is lost: fewer events are read than were appended. -/
lemma length_lt_of_joined {s t : SharedLog H} {calls : List (H × Event)} {h k : H} {e f : Event}
    {rest : List (LogWrite H)} {events : List Event} (hstart : s.bytes = [])
    (hexec : exec (step json.toJsonLines) s (appends calls ++ .line h e :: .line k f :: rest) =
      some t) (hquiet : t.Quiet) (hread : readEvents json.toJsonLines t.bytes = some events) :
    events.length < t.returned.length := by
  set writes := appends calls ++ .line h e :: .line k f :: rest with hwrites
  have hclosed : (groups [] writes).2 = [] :=
    groups_closed_of_exec hexec hquiet fun hne => absurd rfl hne
  have hbytes : t.bytes = (groups [] writes).1.flatMap
      fun g => utf8 (textOf json.toJsonLines g) ++ [lineFeed] := by
    have hall := flatMap_bytesOf json.toJsonLines writes []
    rw [hclosed] at hall
    rw [bytes_of_exec hexec, hstart]
    simpa [textOf] using hall
  rw [hbytes, readEvents_groups, Option.some.injEq] at hread
  rw [hwrites, groups_appends] at hclosed
  obtain ⟨g, hg, hjoined⟩ : ∃ g ∈ (groups [e, f] rest).1, [e, f] <+: g :=
    exists_group_of_opened (by simp) hclosed
  have hmem : g ∈ (groups [] writes).1 := by
    rw [hwrites, groups_appends]
    exact List.mem_append_right _ hg
  calc events.length
      < (groups [] writes).1.length := by
        rw [← hread, List.length_filterMap_lt_length_iff_exists]
        exact ⟨g, hmem, readLine_joined hjoined⟩
    _ = writes.countP isNewline := length_groups writes []
    _ ≤ t.returned.length := by
        rw [length_returned_of_exec hexec]
        exact Nat.le_add_left _ _

/-- A log that keeps all has as many events as appends have returned. -/
lemma KeepsAll.length_eq {s : SharedLog H} {events : List Event}
    (h : s.KeepsAll json.toJsonLines)
    (hread : readEvents json.toJsonLines s.bytes = some events) :
    events.length = s.returned.length := by
  obtain ⟨tagged, htagged, hkept⟩ := h
  have hperm : tagged.Perm s.returned := by
    rw [List.perm_iff_count]
    intro x
    calc tagged.count x
        = (tagged.filter fun y => y.1 = x.1).count x := (List.count_filter (by simp)).symm
      _ = (s.returned.filter fun y => y.1 = x.1).count x := by rw [hkept]
      _ = s.returned.count x := List.count_filter (by simp)
  obtain rfl : tagged.map Prod.snd = events := by
    rw [hread, Option.some.injEq] at htagged
    exact htagged.symm
  rw [List.length_map, hperm.length_eq]

end Reading

end SharedLog

open SharedLog in
/-- **Exactly the interleavings that lose nothing.**  However many handles append to one log, and
however their writes interleave: once every append has returned, reading the log returns every
event exactly once, in an order that keeps each handle's own, if and only if the writes are those
of whole appends, one after the other. -/
theorem keepsAll_iff {H : Type} [DecidableEq H] (json : JsonRecords Event)
    (writes : List (LogWrite H)) (log : SharedLog H)
    (hexec : exec (SharedLog.step json.toJsonLines) SharedLog.empty writes = some log)
    (hreturned : log.Quiet) :
    log.KeepsAll json.toJsonLines ↔ ∃ calls, writes = SharedLog.appends calls := by
  constructor
  · intro hkept
    rcases exec_cases writes (fun _ => rfl) hexec hreturned with hwhole | hjoined
    · exact hwhole
    · obtain ⟨calls, h, e, k, f, rest, rfl⟩ := hjoined
      obtain ⟨tagged, htagged, -⟩ := id hkept
      have hlt := length_lt_of_joined rfl hexec hreturned htagged
      have heq := hkept.length_eq htagged
      omega
  · rintro ⟨calls, rfl⟩
    rw [exec_appends calls fun _ => rfl, Option.some.injEq] at hexec
    subst hexec
    refine ⟨calls, ?_, fun h => by simp [SharedLog.empty]⟩
    simpa [SharedLog.empty] using readEvents_bytesOf (calls.map Prod.snd)

/-! ## Two handles on one log

The collector of a round still delivering records its pull request while a cancel closes the
revise that is waiting behind it. -/

/-- What the collector of the older round appends. -/
def pullRequestLine : Event :=
  ⟨1786752000000000000, .pullRequestOpened "https://github.com/o/r/pull/7"⟩

/-- What a cancel appends meanwhile. -/
def cancelLine : Event :=
  ⟨1786752000000000000, .roundFailed "cancelled before it started"⟩

/-- The two events as they are written. -/
def writtenLines : List (Event × String) :=
  [(pullRequestLine,
      "\x7b\"at\":\"2026-08-15T00:00:00Z\",\"t\":\"pull_request_opened\"," ++
        "\"url\":\"https://github.com/o/r/pull/7\"\x7d"),
    (cancelLine,
      "\x7b\"at\":\"2026-08-15T00:00:00Z\",\"t\":\"round_failed\"," ++
        "\"reason\":\"cancelled before it started\"\x7d")]

lemma writtenLines_ok : JsonRecords.TableOk writtenLines := by
  simp only [JsonRecords.TableOk, writtenLines, List.forall_mem_cons, String.toList_append]
  decide +kernel

/-- A way of writing events that writes these two as they are written. -/
noncomputable def writtenJson : JsonRecords Event := .ofTable writtenLines writtenLines_ok

/-- Each line goes to the file before either newline does. -/
def joiningWrites : List (LogWrite ℕ) :=
  [.line 0 pullRequestLine, .line 1 cancelLine, .newline 0, .newline 1]

/-- **Both appends return, and neither event is read.** -/
theorem loses_joined_lines : ∃ log : SharedLog ℕ,
    exec (SharedLog.step writtenJson.toJsonLines) SharedLog.empty joiningWrites = some log ∧
      log.Quiet ∧ log.returned = [(0, pullRequestLine), (1, cancelLine)] ∧
      readEvents writtenJson.toJsonLines log.bytes = some [] ∧
      ¬ log.KeepsAll writtenJson.toJsonLines := by
  let bytes : List UInt8 := (utf8 (writtenJson.write pullRequestLine) ++
    utf8 (writtenJson.write cancelLine)) ++ [lineFeed] ++ [lineFeed]
  have hread : readEvents writtenJson.toJsonLines bytes = some [] := by
    have hbytes : bytes = [[pullRequestLine, cancelLine], []].flatMap fun g =>
        utf8 (SharedLog.textOf writtenJson.toJsonLines g) ++ [lineFeed] := by
      simp [bytes, SharedLog.textOf, utf8_append]
    have hempty : SharedLog.readLine writtenJson.toJsonLines
        (SharedLog.textOf writtenJson.toJsonLines []) = none := rfl
    have hjoined : SharedLog.readLine writtenJson.toJsonLines
        (SharedLog.textOf writtenJson.toJsonLines [pullRequestLine, cancelLine]) = none :=
      SharedLog.readLine_joined (List.prefix_refl _)
    rw [hbytes, SharedLog.readEvents_groups]
    simp only [List.filterMap_cons, hjoined, hempty, List.filterMap_nil]
  refine ⟨⟨bytes, fun _ => none, [(0, pullRequestLine), (1, cancelLine)]⟩, ?_, fun _ => rfl, rfl,
    hread, fun hkept => ?_⟩
  · have hidle : Function.update (Function.update (Function.update (Function.update
        (fun _ : ℕ => (none : Option Event)) 0 (some pullRequestLine)) 1 (some cancelLine))
        0 none) 1 none = fun _ => none := by
      funext h
      by_cases h0 : h = 0 <;> by_cases h1 : h = 1 <;> simp [h0, h1]
    simp [joiningWrites, exec, SharedLog.step, SharedLog.empty, hidle, bytes]
  · have hlength := hkept.length_eq hread
    simp at hlength

/-- The same two appends, the second begun when the first has returned. -/
theorem keepsAll_one_after_the_other : ∃ log : SharedLog ℕ,
    exec (SharedLog.step writtenJson.toJsonLines) SharedLog.empty
        [.line 0 pullRequestLine, .newline 0, .line 1 cancelLine, .newline 1] = some log ∧
      log.KeepsAll writtenJson.toJsonLines := by
  let calls : List (ℕ × Event) := [(0, pullRequestLine), (1, cancelLine)]
  have hexec : exec (SharedLog.step writtenJson.toJsonLines) SharedLog.empty
      (SharedLog.appends calls) = some ⟨_, _, calls⟩ := SharedLog.exec_appends calls fun _ => rfl
  exact ⟨_, hexec, (keepsAll_iff writtenJson _ _ hexec fun _ => rfl).mpr ⟨calls, rfl⟩⟩

end AssemblyLine
