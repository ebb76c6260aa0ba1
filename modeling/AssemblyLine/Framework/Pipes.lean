import AssemblyLine.Framework.Lines
import Mathlib.Data.List.TakeWhile

/-!
# Handing on the lines of a pipe

A reader takes what is written to a pipe apart at its line feeds and hands each line on, while the
pipe is still being written: it reads some of the bytes there are into a buffer, looks for a line
feed among them, and hands on what comes before it.  When the pipe has closed and is empty the rest
is one more line, unless there is none.

`PipeReader.step` is one step of it.  `HandedOn` says what was handed on of what was written, and is
kept by every step and every write (`HandedOn.step`, `HandedOn.write`): what was handed on is the
beginning of the lines written (`HandedOn.begins`), and all of them when the reader has come to the
end by itself (`HandedOn.all`).
-/

namespace AssemblyLine

/-- Whether a reader goes on. -/
inductive PipeReader.Standing
  | reading
  /-- It has come to the end of the pipe. -/
  | ended
  /-- It has given up, and hands nothing more on. -/
  | stopped
deriving DecidableEq, Repr

structure PipeReader where
  /-- What is in the pipe. -/
  unread : List UInt8
  /-- What has been read and not looked at. -/
  buffer : List UInt8
  /-- The beginning of a line whose end has not been found. -/
  held : List UInt8
  /-- A line that is about to be handed on. -/
  ready : Option (List UInt8)
  standing : PipeReader.Standing
deriving DecidableEq, Repr

inductive PipeReader.Act
  /-- Read some of the bytes there are. -/
  | fill (n : ℕ)
  /-- Look for a line feed in the buffer. -/
  | scan
  /-- Find the pipe closed and empty. -/
  | endOfFile
  | handOn
  | stop
deriving DecidableEq, Repr

namespace PipeReader

/-- A reader of a pipe nothing has been written to. -/
def opened : PipeReader := ⟨[], [], [], none, .reading⟩

def write (r : PipeReader) (chunk : List UInt8) : PipeReader :=
  { r with unread := r.unread ++ chunk }

@[simp] lemma standing_write (r : PipeReader) (chunk : List UInt8) :
    (r.write chunk).standing = r.standing := rfl

/-- What looking at the buffer comes to. -/
def scan (r : PipeReader) : PipeReader :=
  match r.buffer.dropWhile (· ≠ lineFeed) with
  | [] => { r with buffer := [], held := r.held ++ r.buffer }
  | _ :: rest =>
    { r with
      buffer := rest
      held := []
      ready := some (r.held ++ r.buffer.takeWhile (· ≠ lineFeed)) }

/-- One step, and the line handed on in it. -/
def step (closed : Bool) (r : PipeReader) : Act → Option (PipeReader × Option (List UInt8))
  | .fill n =>
    if r.standing = .reading ∧ r.ready = none ∧ r.buffer = [] ∧ 0 < n ∧ n ≤ r.unread.length then
      some ({ r with buffer := r.unread.take n, unread := r.unread.drop n }, none)
    else none
  | .scan =>
    if r.standing = .reading ∧ r.ready = none ∧ r.buffer ≠ [] then some (r.scan, none) else none
  | .endOfFile =>
    if r.standing = .reading ∧ r.ready = none ∧ r.buffer = [] ∧ r.unread = [] ∧ closed = true then
      if r.held = [] then some ({ r with standing := .ended }, none)
      else some ({ r with held := [], ready := some r.held }, none)
    else none
  | .handOn =>
    if r.standing = .reading then r.ready.map fun line => ({ r with ready := none }, some line)
    else none
  | .stop => if r.standing = .reading then some ({ r with standing := .stopped }, none) else none

/-- What is left to do, in steps. -/
def work (r : PipeReader) : ℕ :=
  4 * r.unread.length + 3 * r.buffer.length + 2 * r.held.length +
    (if r.ready.isSome then 1 else 0) + (if r.standing = .reading then 1 else 0)

end PipeReader

/-! ## What has been handed on -/

/-- Of all that was written, `handed` was handed on: whole lines, then perhaps a last one that had
no line feed; the rest is in the reader or in the pipe. -/
structure HandedOn.Parts (closed : Bool) (written : List UInt8) (handed : List (List UInt8))
    (r : PipeReader) (lines : List (List UInt8)) (last : List UInt8) : Prop where
  whole : ∀ line ∈ lines, lineFeed ∉ line
  last_whole : lineFeed ∉ last
  held_whole : lineFeed ∉ r.held
  shown : handed ++ r.ready.toList = lines ++ if last = [] then [] else [last]
  bytes : written =
    (lines.flatMap fun line => line ++ [lineFeed]) ++ last ++ r.held ++ r.buffer ++ r.unread
  drained : last ≠ [] ∨ r.standing = .ended →
    closed = true ∧ r.held = [] ∧ r.buffer = [] ∧ r.unread = []
  ended : r.standing = .ended → r.ready = none

def HandedOn (closed : Bool) (written : List UInt8) (handed : List (List UInt8))
    (r : PipeReader) : Prop :=
  ∃ lines last, HandedOn.Parts closed written handed r lines last

namespace HandedOn

variable {closed closed' : Bool} {written : List UInt8} {handed : List (List UInt8)}
  {r r' : PipeReader} {lines : List (List UInt8)} {last : List UInt8}

lemma opened (closed : Bool) : HandedOn closed [] [] .opened :=
  ⟨[], [], by simp, by simp, by simp [PipeReader.opened], rfl, rfl, by simp [PipeReader.opened],
    by simp [PipeReader.opened]⟩

/-- A pipe that is closed stays closed. -/
lemma of_closed (inv : HandedOn closed written handed r) (h : closed = true → closed' = true) :
    HandedOn closed' written handed r := by
  obtain ⟨lines, last, inv⟩ := inv
  exact ⟨lines, last, { inv with
    drained := fun hover => ⟨h (inv.drained hover).1, (inv.drained hover).2⟩ }⟩

/-- Writing to a pipe that is open. -/
theorem write (inv : HandedOn closed written handed r) (hopen : closed = false)
    (chunk : List UInt8) : HandedOn closed (written ++ chunk) handed (r.write chunk) := by
  obtain ⟨lines, last, inv⟩ := inv
  refine ⟨lines, last, { inv with bytes := ?_, drained := fun hover => ?_ }⟩
  · rw [inv.bytes, PipeReader.write]
    simp
  · have hclosed := (inv.drained hover).1
    rw [hopen] at hclosed
    cases hclosed

/-- While something is left of the pipe, its last line has not been handed on. -/
lemma Parts.goes_on (inv : Parts closed written handed r lines last)
    (hleft : r.held ≠ [] ∨ r.buffer ≠ [] ∨ r.unread ≠ []) : last = [] := by
  by_contra hlast
  obtain ⟨-, hheld, hbuffer, hunread⟩ := inv.drained (.inl hlast)
  rcases hleft with hleft | hleft | hleft
  · exact hleft hheld
  · exact hleft hbuffer
  · exact hleft hunread

lemma Parts.scan (inv : Parts closed written handed r lines last) (hready : r.ready = none)
    (hstanding : r.standing = .reading) (hbuffer : r.buffer ≠ []) :
    HandedOn closed written handed r.scan := by
  have hsplit := List.takeWhile_append_dropWhile (p := (· ≠ lineFeed)) (l := r.buffer)
  have hbefore : lineFeed ∉ r.buffer.takeWhile (· ≠ lineFeed) := by
    intro hmem
    simpa using List.mem_takeWhile_imp hmem
  obtain rfl := inv.goes_on (.inr (.inl hbuffer))
  have hshown := inv.shown
  rw [hready, Option.toList_none, List.append_nil, if_pos rfl, List.append_nil] at hshown
  unfold PipeReader.scan
  cases hrest : r.buffer.dropWhile (· ≠ lineFeed) with
  | nil =>
      rw [hrest, List.append_nil] at hsplit
      rw [hsplit] at hbefore
      refine ⟨lines, [], { inv with held_whole := ?_, bytes := ?_, drained := ?_ }⟩
      · rw [List.mem_append]
        exact fun hmem => hmem.elim inv.held_whole hbefore
      · rw [inv.bytes]
        simp
      · simp [hstanding]
  | cons feed rest =>
      have hfeed : feed = lineFeed := by
        have hstop := List.head?_dropWhile_not (· ≠ lineFeed) r.buffer
        rw [hrest] at hstop
        simpa using hstop
      subst hfeed
      rw [hrest] at hsplit
      refine ⟨lines ++ [r.held ++ r.buffer.takeWhile (· ≠ lineFeed)], [], ?_, by simp, by simp, ?_,
        ?_, by simp [hstanding], by simp [hstanding]⟩
      · intro line hline
        rcases List.mem_append.mp hline with hline | hline
        · exact inv.whole line hline
        · rw [List.mem_singleton.mp hline, List.mem_append]
          exact fun hmem => hmem.elim inv.held_whole hbefore
      · rw [hshown]
        simp
      · rw [inv.bytes]
        nth_rewrite 1 [← hsplit]
        simp

/-- The rest of a pipe that has closed is its last line. -/
lemma Parts.last_line (inv : Parts closed written handed r lines last) (hready : r.ready = none)
    (hstanding : r.standing = .reading) (hbuffer : r.buffer = []) (hunread : r.unread = [])
    (hclosed : closed = true) (hheld : r.held ≠ []) :
    HandedOn closed written handed { r with held := [], ready := some r.held } := by
  obtain rfl := inv.goes_on (.inl hheld)
  have hshown := inv.shown
  rw [hready, Option.toList_none, List.append_nil, if_pos rfl, List.append_nil] at hshown
  refine ⟨lines, r.held, inv.whole, inv.held_whole, by simp, ?_, ?_,
    fun _ => ⟨hclosed, rfl, hbuffer, hunread⟩, by simp [hstanding]⟩
  · rw [hshown, if_neg hheld]
    rfl
  · rw [inv.bytes]
    simp

/-- **Every step keeps it.** -/
theorem step (inv : HandedOn closed written handed r) {act : PipeReader.Act}
    {line : Option (List UInt8)} (h : r.step closed act = some (r', line)) :
    HandedOn closed written (handed ++ line.toList) r' := by
  obtain ⟨lines, last, inv⟩ := inv
  cases act with
  | fill n =>
      simp only [PipeReader.step, Option.ite_none_right_eq_some, Option.some.injEq,
        Prod.mk.injEq] at h
      obtain ⟨⟨hstanding, hready, hbuffer, hpos, hlength⟩, rfl, rfl⟩ := h
      rw [Option.toList_none, List.append_nil]
      have hunread : r.unread ≠ [] := List.ne_nil_of_length_pos (by omega)
      obtain rfl := inv.goes_on (.inr (.inr hunread))
      refine ⟨lines, [], { inv with bytes := ?_, drained := ?_ }⟩
      · rw [inv.bytes, hbuffer]
        simp
      · simp [hstanding]
  | scan =>
      simp only [PipeReader.step, Option.ite_none_right_eq_some, Option.some.injEq,
        Prod.mk.injEq] at h
      obtain ⟨⟨hstanding, hready, hbuffer⟩, rfl, rfl⟩ := h
      rw [Option.toList_none, List.append_nil]
      exact inv.scan hready hstanding hbuffer
  | endOfFile =>
      simp only [PipeReader.step, Option.ite_none_right_eq_some] at h
      obtain ⟨⟨hstanding, hready, hbuffer, hunread, hclosed⟩, h⟩ := h
      split at h
      · rename_i hheld
        simp only [Option.some.injEq, Prod.mk.injEq] at h
        obtain ⟨rfl, rfl⟩ := h
        rw [Option.toList_none, List.append_nil]
        exact ⟨lines, last, { inv with
          drained := fun _ => ⟨hclosed, hheld, hbuffer, hunread⟩
          ended := fun _ => hready }⟩
      · rename_i hheld
        simp only [Option.some.injEq, Prod.mk.injEq] at h
        obtain ⟨rfl, rfl⟩ := h
        rw [Option.toList_none, List.append_nil]
        exact inv.last_line hready hstanding hbuffer hunread hclosed hheld
  | handOn =>
      simp only [PipeReader.step, Option.ite_none_right_eq_some, Option.map_eq_some_iff,
        Prod.mk.injEq] at h
      obtain ⟨hstanding, text, hready, rfl, rfl⟩ := h
      refine ⟨lines, last, { inv with shown := ?_, ended := fun _ => rfl }⟩
      rw [← inv.shown, hready]
      simp
  | stop =>
      simp only [PipeReader.step, Option.ite_none_right_eq_some, Option.some.injEq,
        Prod.mk.injEq] at h
      obtain ⟨hstanding, rfl, rfl⟩ := h
      rw [Option.toList_none, List.append_nil]
      refine ⟨lines, last, { inv with
        drained := fun hover => inv.drained (.inl (hover.resolve_right (by simp)))
        ended := by simp }⟩

/-- The pieces of terminated lines and what follows them. -/
lemma segments_append {lines : List (List UInt8)} (hlines : ∀ line ∈ lines, lineFeed ∉ line)
    (rest : List UInt8) :
    segments lineFeed ((lines.flatMap fun line => line ++ [lineFeed]) ++ rest) =
      lines ++ segments lineFeed rest := by
  induction lines with
  | nil => rfl
  | cons line lines ih =>
      have hshape : ((line :: lines).flatMap fun line => line ++ [lineFeed]) ++ rest =
          line ++ lineFeed :: ((lines.flatMap fun line => line ++ [lineFeed]) ++ rest) := by simp
      have hcons : ∀ bs : List UInt8,
          segments lineFeed (line ++ lineFeed :: bs) = line :: segments lineFeed bs := by
        intro bs
        rw [segments, segments, List.splitOn_append_cons_self_of_not_mem (hlines line (by simp))]
        obtain ⟨first, pieces, hpieces⟩ := List.exists_cons_of_ne_nil
          (List.splitOn_ne_nil lineFeed bs)
        rw [hpieces]
        rfl
      rw [hshape, hcons, ih fun line' h => hlines line' (by simp [h])]
      rfl

/-- **What was handed on is the beginning of the lines that were written.** -/
theorem begins (inv : HandedOn closed written handed r) :
    handed <+: segments lineFeed written := by
  obtain ⟨lines, last, inv⟩ := inv
  have hshown : handed <+: lines ++ if last = [] then [] else [last] :=
    ⟨r.ready.toList, inv.shown⟩
  refine hshown.trans ?_
  rw [inv.bytes, List.append_assoc, List.append_assoc, List.append_assoc, segments_append inv.whole]
  refine (List.prefix_append_right_inj lines).mpr ?_
  by_cases hlast : last = []
  · rw [if_pos hlast]
    exact List.nil_prefix
  · obtain ⟨-, hheld, hbuffer, hunread⟩ := inv.drained (.inl hlast)
    have hone := @segments_lines_append _ _ lineFeed [] last (by simp) inv.last_whole
    rw [List.flatMap_nil, List.nil_append, List.nil_append] at hone
    rw [hheld, hbuffer, hunread, List.append_nil, List.append_nil, List.append_nil, hone]

/-- It is the beginning of the lines that will have been written, too: the last line is not handed
on before the pipe is closed. -/
theorem begins_all (inv : HandedOn closed written handed r) {bytes : List UInt8}
    (hwritten : written <+: bytes) (hclosed : closed = true → written = bytes) :
    handed <+: segments lineFeed bytes := by
  obtain ⟨lines, last, parts⟩ := inv
  by_cases hlast : last = []
  · obtain ⟨more, rfl⟩ := hwritten
    have hshown : handed <+: lines := by
      refine ⟨r.ready.toList, parts.shown.trans ?_⟩
      rw [if_pos hlast, List.append_nil]
    rw [parts.bytes, hlast, List.append_nil, List.append_assoc, List.append_assoc,
      List.append_assoc, segments_append parts.whole]
    exact hshown.trans (List.prefix_append _ _)
  · rw [← hclosed (parts.drained (.inl hlast)).1]
    exact begins ⟨lines, last, parts⟩

/-- **A reader that comes to the end by itself has handed every line on**, and then the pipe is
closed. -/
theorem all (inv : HandedOn closed written handed r) (hended : r.standing = .ended) :
    handed = segments lineFeed written ∧ closed = true := by
  obtain ⟨lines, last, inv⟩ := inv
  obtain ⟨hclosed, hheld, hbuffer, hunread⟩ := inv.drained (.inr hended)
  have hshown := inv.shown
  rw [inv.ended hended, Option.toList_none, List.append_nil] at hshown
  refine ⟨?_, hclosed⟩
  rw [inv.bytes, hheld, hbuffer, hunread, List.append_nil, List.append_nil, List.append_nil,
    segments_lines_append inv.whole inv.last_whole, hshown]

end HandedOn

/-! ## A reader comes to the end -/

namespace PipeReader

variable {closed : Bool} {r r' : PipeReader} {line : Option (List UInt8)}

/-- Every step leaves less to do. -/
theorem work_lt_of_step {act : Act} (h : r.step closed act = some (r', line)) :
    r'.work < r.work := by
  cases act with
  | fill n =>
      simp only [step, Option.ite_none_right_eq_some, Option.some.injEq, Prod.mk.injEq] at h
      obtain ⟨⟨hstanding, hready, hbuffer, hpos, hlength⟩, rfl, -⟩ := h
      simp only [work, hbuffer, List.length_take, List.length_drop, List.length_nil]
      omega
  | scan =>
      simp only [step, Option.ite_none_right_eq_some, Option.some.injEq, Prod.mk.injEq] at h
      obtain ⟨⟨hstanding, hready, hbuffer⟩, rfl, -⟩ := h
      have hlength := congrArg List.length
        (List.takeWhile_append_dropWhile (p := (· ≠ lineFeed)) (l := r.buffer))
      have hpos := List.length_pos_iff.mpr hbuffer
      rw [List.length_append] at hlength
      unfold scan
      cases hrest : r.buffer.dropWhile (· ≠ lineFeed) with
      | nil =>
          simp only [work, List.length_append, List.length_nil]
          omega
      | cons feed rest =>
          rw [hrest, List.length_cons] at hlength
          simp only [work, List.length_nil, hready, Option.isSome_some, Option.isSome_none,
            if_true]
          split <;> simp <;> omega
  | endOfFile =>
      simp only [step, Option.ite_none_right_eq_some] at h
      obtain ⟨⟨hstanding, hready, hbuffer, hunread, hclosed⟩, h⟩ := h
      split at h
      · simp only [Option.some.injEq, Prod.mk.injEq] at h
        obtain ⟨rfl, -⟩ := h
        simp [work, hstanding]
      · rename_i hheld
        simp only [Option.some.injEq, Prod.mk.injEq] at h
        obtain ⟨rfl, -⟩ := h
        have hpos := List.length_pos_iff.mpr hheld
        simp only [work, hready, Option.isSome_some, Option.isSome_none, if_true, List.length_nil]
        split <;> simp <;> omega
  | handOn =>
      simp only [step, Option.ite_none_right_eq_some, Option.map_eq_some_iff, Prod.mk.injEq] at h
      obtain ⟨hstanding, text, hready, rfl, -⟩ := h
      simp [work, hready]
  | stop =>
      simp only [step, Option.ite_none_right_eq_some, Option.some.injEq, Prod.mk.injEq] at h
      obtain ⟨hstanding, rfl, -⟩ := h
      simp [work, hstanding]

/-- A reader that goes on can take a step, unless the pipe is open and empty. -/
theorem exists_step (hstanding : r.standing = .reading)
    (hleft : closed = true ∨ r.unread ≠ [] ∨ r.buffer ≠ [] ∨ r.ready ≠ none) :
    ∃ act, act ≠ .stop ∧ r.step closed act ≠ none := by
  cases hready : r.ready with
  | some line => exact ⟨.handOn, by simp, by simp [step, hstanding, hready]⟩
  | none =>
      by_cases hbuffer : r.buffer = []
      · by_cases hunread : r.unread = []
        · have hclosed : closed = true := by
            rcases hleft with h | h | h | h
            · exact h
            · exact absurd hunread h
            · exact absurd hbuffer h
            · exact absurd hready h
          refine ⟨.endOfFile, by simp, ?_⟩
          simp only [step, hstanding, hready, hbuffer, hunread, hclosed, and_self, if_true]
          split <;> simp
        · refine ⟨.fill 1, by simp, ?_⟩
          have hpos := List.length_pos_iff.mpr hunread
          simp [step, hstanding, hready, hbuffer]
          omega
      · exact ⟨.scan, by simp, by simp [step, hstanding, hready, hbuffer]⟩

end PipeReader

end AssemblyLine
