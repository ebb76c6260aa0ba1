import AssemblyLine.Framework.Lines
import AssemblyLine.Framework.Machine
import Mathlib.Data.List.TakeWhile

/-!
# Reading a file that is still being written

`FileTail::next_line` reads a file another process appends to, line by line, and ends when the
writer has ended.  Whether it has is asked before each read, so that nothing the writer appended
last is left behind.

`Tailing` is the file, its writer and its reader, and takes as its step one append, or one step of
the reader: a question, a read of some of the bytes there are, a look for the end of a line.
`Tailed` says that what was returned, what is held and what is unread make up the file, whatever
the interleaving, and every step of a reader that is told of the writer's end leaves it less to do
(`work_lt_of_step`); `tail_returns_lines` is what follows for the lines returned.
-/

namespace AssemblyLine

/-- Where the reader is. -/
inductive TailAt
  /-- Between two calls of `next_line`. -/
  | idle
  /-- At the top of its loop. -/
  | asking
  /-- In `read_until`, having read this many bytes, with the writer's answer from before. -/
  | reading (writerAlive : Bool) (got : ℕ)
deriving DecidableEq, Repr

/-- A file, its writer and its reader. -/
structure Tailing where
  file : List UInt8
  /-- The writer may append more. -/
  writing : Bool
  /-- How much of the file has been read. -/
  read : ℕ
  /-- What the `BufReader` has read, and not given out. -/
  buffer : List UInt8
  /-- The source's `partial`: a line read up to the end of the file so far. -/
  unfinished : List UInt8
  reader : TailAt
deriving DecidableEq, Repr

inductive TailAction
  | append (chunk : List UInt8)
  /-- The writer has written its last byte. -/
  | stop
  | call
  /-- `still_writing` answers. -/
  | ask (answer : Bool)
  /-- The `BufReader` reads some of the bytes there are. -/
  | fill (n : ℕ)
  /-- It reads none, since there are none. -/
  | endOfFile
  /-- `read_until` takes what is in the buffer, up to a line feed. -/
  | take
  /-- The call is given up while it waits. -/
  | giveUp
deriving DecidableEq, Repr

namespace Tailing

/-- A writer that begins a file, and a reader that has opened it. -/
def opened (file : List UInt8) : Tailing := ⟨file, true, 0, [], [], .idle⟩

/-- What `next_line` makes of a `read_until` that is over: what it returns, if it does. -/
def afterRead (s : Tailing) (writerAlive : Bool) (got : ℕ) : Tailing × List (Option String) :=
  if s.unfinished.getLast? = some lineFeed then
    ({ s with unfinished := [], reader := .idle }, [some (fromUtf8Lossy s.unfinished.dropLast)])
  else if got = 0 ∧ writerAlive = false then
    ({ s with unfinished := [], reader := .idle },
      [if s.unfinished = [] then none else some (fromUtf8Lossy s.unfinished)])
  else ({ s with reader := .asking }, [])

/-- What `read_until` makes of a buffer that is not empty. -/
def afterTake (s : Tailing) (writerAlive : Bool) (got : ℕ) : Tailing × List (Option String) :=
  match s.buffer.dropWhile (· ≠ lineFeed) with
  | [] =>
    ({ s with
      unfinished := s.unfinished ++ s.buffer
      buffer := []
      reader := .reading writerAlive (got + s.buffer.length) }, [])
  | feed :: rest =>
    let line := s.buffer.takeWhile (· ≠ lineFeed) ++ [feed]
    afterRead { s with unfinished := s.unfinished ++ line, buffer := rest } writerAlive
      (got + line.length)

/-- One step, and what `next_line` returns in it. -/
def next (s : Tailing) : TailAction → Option (Tailing × List (Option String))
  | .append chunk =>
    if s.writing then some ({ s with file := s.file ++ chunk }, []) else none
  | .stop => if s.writing then some ({ s with writing := false }, []) else none
  | .call => if s.reader = .idle then some ({ s with reader := .asking }, []) else none
  | .ask answer =>
    if s.reader = .asking then some ({ s with reader := .reading answer 0 }, []) else none
  | .fill n =>
    match s.reader with
    | .reading _ _ =>
      if s.buffer = [] ∧ 0 < n ∧ s.read + n ≤ s.file.length then
        some ({ s with buffer := (s.file.drop s.read).take n, read := s.read + n }, [])
      else none
    | _ => none
  | .endOfFile =>
    match s.reader with
    | .reading writerAlive got =>
      if s.buffer = [] ∧ s.read = s.file.length then some (s.afterRead writerAlive got) else none
    | _ => none
  | .take =>
    match s.reader with
    | .reading writerAlive got =>
      if s.buffer = [] then none else some (s.afterTake writerAlive got)
    | _ => none
  | .giveUp => if s.reader = .idle then none else some ({ s with reader := .idle }, [])

def step (s : Tailing) (a : TailAction) : Option Tailing := (s.next a).map Prod.fst

/-- What `next_line` returns. -/
def returns (s : Tailing) (a : TailAction) : List (Option String) :=
  ((s.next a).map Prod.snd).getD []

/-- `still_writing` answers that the writer has ended only once it has written its last byte. -/
def Honest (s : Tailing) : TailAction → Prop
  | .ask false => s.writing = false
  | _ => True

instance (s : Tailing) (a : TailAction) : Decidable (s.Honest a) := by
  unfold Honest
  split <;> infer_instance

/-! ## What has been returned -/

/-- What `next_line` has returned of the file: lines, then perhaps a last one without its line feed,
and then that there are none; with what it holds, it is the file as far as it was read. -/
structure Returned (h : List (Option String)) (s : Tailing) (lines : List (List UInt8))
    (last : List UInt8) (ends : ℕ) : Prop where
  shown : h = (lines ++ if last = [] then [] else [last]).map (some ∘ fromUtf8Lossy) ++
    List.replicate ends none
  whole : ∀ line ∈ lines, lineFeed ∉ line
  last_whole : lineFeed ∉ last
  unfinished_whole : lineFeed ∉ s.unfinished
  bytes : s.file.take s.read =
    (lines.flatMap fun line => line ++ [lineFeed]) ++ last ++ s.unfinished ++ s.buffer
  within : s.read ≤ s.file.length
  drained : last ≠ [] ∨ ends ≠ 0 →
    s.writing = false ∧ s.read = s.file.length ∧ s.unfinished = [] ∧ s.buffer = []
  answered : ∀ got, s.reader = .reading false got → s.writing = false

/-- Something was returned of the file, as `Returned` has it. -/
def Tailed (h : List (Option String)) (s : Tailing) : Prop :=
  ∃ lines last ends, Returned h s lines last ends

variable {h : List (Option String)} {s t : Tailing} {lines : List (List UInt8)} {last : List UInt8}
  {ends got : ℕ} {writerAlive : Bool}

lemma tailed_opened (file : List UInt8) : Tailed [] (opened file) :=
  ⟨[], [], 0, rfl, by simp, by simp, by simp [opened], rfl, Nat.zero_le _, by simp,
    fun _ hreader => by cases hreader⟩

/-- Where the reader is does not matter to what was returned, once the answer it got is honest. -/
lemma Returned.moved (inv : Returned h s lines last ends) {reader : TailAt}
    (hanswered : ∀ got, reader = .reading false got → s.writing = false) :
    Returned h { s with reader } lines last ends :=
  { inv with answered := hanswered }

/-- While there is something to give out, nothing was returned as the last of the file. -/
lemma Returned.goes_on (inv : Returned h s lines last ends)
    (hleft : s.read ≠ s.file.length ∨ s.unfinished ≠ [] ∨ s.buffer ≠ []) :
    last = [] ∧ ends = 0 := by
  by_contra hended
  have hover : last ≠ [] ∨ ends ≠ 0 := by
    by_cases hlast : last = []
    · exact Or.inr fun hends => hended ⟨hlast, hends⟩
    · exact Or.inl hlast
  obtain ⟨-, hread, hunfinished, hbuffer⟩ := inv.drained hover
  rcases hleft with hleft | hleft | hleft
  · exact hleft hread
  · exact hleft hunfinished
  · exact hleft hbuffer

lemma Returned.append (inv : Returned h s lines last ends) (hwriting : s.writing = true)
    (chunk : List UInt8) : Returned h { s with file := s.file ++ chunk } lines last ends := by
  refine { inv with bytes := ?_, within := ?_, drained := fun hover => ?_ }
  · exact (List.take_append_of_le_length inv.within).trans inv.bytes
  · exact inv.within.trans (by simp)
  · rw [(inv.drained hover).1] at hwriting
    cases hwriting

lemma Returned.fill (inv : Returned h s lines last ends) {n : ℕ} (hbuffer : s.buffer = [])
    (hpos : 0 < n) (hwithin : s.read + n ≤ s.file.length) :
    Returned h { s with buffer := (s.file.drop s.read).take n, read := s.read + n } lines last
      ends := by
  refine { inv with bytes := ?_, within := hwithin, drained := fun hover => ?_ }
  · rw [List.take_add, inv.bytes, hbuffer, List.append_nil]
  · have hread := (inv.drained hover).2.1
    omega

/-- A line whose end was found is returned. -/
lemma Returned.line (inv : Returned h s lines last ends) {line rest : List UInt8}
    (hbuffer : s.buffer = line ++ lineFeed :: rest) (hline : lineFeed ∉ line) :
    Returned (h ++ [some (fromUtf8Lossy (s.unfinished ++ line))])
      { s with unfinished := [], buffer := rest, reader := .idle }
      (lines ++ [s.unfinished ++ line]) [] 0 := by
  obtain ⟨rfl, rfl⟩ := inv.goes_on (Or.inr (Or.inr (by rw [hbuffer]; simp)))
  refine ⟨?_, ?_, by simp, by simp, ?_, inv.within, by simp, fun _ hreader => by cases hreader⟩
  · rw [inv.shown]
    simp
  · intro l hl
    rcases List.mem_append.mp hl with hl | hl
    · exact inv.whole l hl
    · rw [List.mem_singleton.mp hl, List.mem_append]
      exact fun hmem => hmem.elim inv.unfinished_whole hline
  · rw [inv.bytes, hbuffer]
    simp

/-- The end of the file is reached, by a reader that was told the writer has ended. -/
lemma Returned.last_line (inv : Returned h s lines last ends) (hwriting : s.writing = false)
    (hbuffer : s.buffer = []) (hread : s.read = s.file.length) (hleft : s.unfinished ≠ []) :
    Returned (h ++ [some (fromUtf8Lossy s.unfinished)])
      { s with unfinished := [], reader := .idle } lines s.unfinished 0 := by
  obtain ⟨rfl, rfl⟩ := inv.goes_on (Or.inr (Or.inl hleft))
  refine ⟨?_, inv.whole, inv.unfinished_whole, by simp, ?_, inv.within,
    fun _ => ⟨hwriting, hread, rfl, hbuffer⟩, fun _ hreader => by cases hreader⟩
  · rw [inv.shown, if_neg hleft]
    simp
  · rw [inv.bytes]
    simp

lemma Returned.none_left (inv : Returned h s lines last ends) (hwriting : s.writing = false)
    (hbuffer : s.buffer = []) (hread : s.read = s.file.length) (hleft : s.unfinished = []) :
    Returned (h ++ [none]) { s with unfinished := [], reader := .idle } lines last (ends + 1) := by
  refine ⟨?_, inv.whole, inv.last_whole, by simp, ?_, inv.within,
    fun _ => ⟨hwriting, hread, rfl, hbuffer⟩, fun _ hreader => by cases hreader⟩
  · rw [inv.shown, List.append_assoc, List.replicate_succ']
  · rw [inv.bytes, hleft]

/-- A `read_until` that came to the end of the file. -/
lemma Returned.endOfFile (inv : Returned h s lines last ends)
    (hreader : s.reader = .reading writerAlive got) (hbuffer : s.buffer = [])
    (hread : s.read = s.file.length) :
    Tailed (h ++ (s.afterRead writerAlive got).2) (s.afterRead writerAlive got).1 := by
  have hopen : s.unfinished.getLast? ≠ some lineFeed :=
    fun hfeed => inv.unfinished_whole (List.mem_of_getLast? hfeed)
  rw [afterRead, if_neg hopen]
  by_cases hover : got = 0 ∧ writerAlive = false
  · obtain ⟨rfl, rfl⟩ := hover
    have hwriting := inv.answered 0 hreader
    rw [if_pos ⟨rfl, rfl⟩]
    by_cases hleft : s.unfinished = []
    · rw [if_pos hleft]
      exact ⟨_, _, _, inv.none_left hwriting hbuffer hread hleft⟩
    · rw [if_neg hleft]
      exact ⟨_, _, _, inv.last_line hwriting hbuffer hread hleft⟩
  · rw [if_neg hover, List.append_nil]
    exact ⟨_, _, _, inv.moved fun _ hreader => by cases hreader⟩

/-- What `read_until` takes from the buffer. -/
lemma Returned.take (inv : Returned h s lines last ends)
    (hreader : s.reader = .reading writerAlive got) (hbuffer : s.buffer ≠ []) :
    Tailed (h ++ (s.afterTake writerAlive got).2) (s.afterTake writerAlive got).1 := by
  have hsplit := List.takeWhile_append_dropWhile (p := (· ≠ lineFeed)) (l := s.buffer)
  have hbefore : lineFeed ∉ s.buffer.takeWhile (· ≠ lineFeed) := by
    intro hmem
    simpa using List.mem_takeWhile_imp hmem
  obtain ⟨rfl, rfl⟩ := inv.goes_on (Or.inr (Or.inr hbuffer))
  unfold afterTake
  cases hrest : s.buffer.dropWhile (· ≠ lineFeed) with
  | nil =>
      rw [hrest, List.append_nil] at hsplit
      rw [hsplit] at hbefore
      rw [List.append_nil]
      refine ⟨lines, [], 0, inv.shown, inv.whole, by simp, ?_, ?_, inv.within, by simp, ?_⟩
      · rw [List.mem_append]
        exact fun hmem => hmem.elim inv.unfinished_whole hbefore
      · rw [inv.bytes]
        simp
      · intro got' hgot
        cases hgot
        exact inv.answered got hreader
  | cons feed rest =>
      have hfeed : feed = lineFeed := by
        have hstop := List.head?_dropWhile_not (· ≠ lineFeed) s.buffer
        rw [hrest] at hstop
        simpa using hstop
      subst hfeed
      rw [hrest] at hsplit
      have hends : (s.unfinished ++ (s.buffer.takeWhile (· ≠ lineFeed) ++ [lineFeed])).getLast? =
          some lineFeed := by
        rw [← List.append_assoc]
        exact List.getLast?_concat
      have hline := inv.line hsplit.symm hbefore
      dsimp only
      rw [afterRead, if_pos hends]
      dsimp only
      rw [← List.append_assoc, List.dropLast_concat]
      exact ⟨_, _, _, hline⟩

/-- The steps of `read_until` are taken in it. -/
lemma reading_of_next {a : TailAction} {after : Tailing × List (Option String)}
    (ha : (∃ n, a = .fill n) ∨ a = .endOfFile ∨ a = .take) (hnext : s.next a = some after) :
    ∃ writerAlive got, s.reader = .reading writerAlive got := by
  cases hreader : s.reader with
  | reading writerAlive got => exact ⟨writerAlive, got, rfl⟩
  | idle => rcases ha with ⟨n, rfl⟩ | rfl | rfl <;> simp [Tailing.next, hreader] at hnext
  | asking => rcases ha with ⟨n, rfl⟩ | rfl | rfl <;> simp [Tailing.next, hreader] at hnext

/-- **One step keeps it**: what is returned goes on where it left off. -/
lemma Tailed.step (inv : Tailed h s) {a : TailAction} (honest : s.Honest a)
    (hstep : s.step a = some t) : Tailed (h ++ s.returns a) t := by
  obtain ⟨lines, last, ends, inv⟩ := inv
  obtain ⟨⟨t', returned⟩, hnext, rfl⟩ := Option.map_eq_some_iff.mp hstep
  have hreturned : s.returns a = returned := by rw [returns, hnext]; rfl
  rw [hreturned]
  cases a with
  | append chunk =>
      obtain ⟨hwriting, heq⟩ := Option.ite_none_right_eq_some.mp hnext
      cases heq
      rw [List.append_nil]
      exact ⟨_, _, _, inv.append hwriting chunk⟩
  | stop =>
      obtain ⟨hwriting, heq⟩ := Option.ite_none_right_eq_some.mp hnext
      cases heq
      rw [List.append_nil]
      exact ⟨_, _, _, { inv with
        drained := fun hover => ⟨rfl, (inv.drained hover).2⟩
        answered := fun _ _ => rfl }⟩
  | call =>
      obtain ⟨-, heq⟩ := Option.ite_none_right_eq_some.mp hnext
      cases heq
      rw [List.append_nil]
      exact ⟨_, _, _, inv.moved fun _ hreader => by cases hreader⟩
  | ask answer =>
      obtain ⟨-, heq⟩ := Option.ite_none_right_eq_some.mp hnext
      cases heq
      rw [List.append_nil]
      refine ⟨_, _, _, inv.moved fun _ hreader => ?_⟩
      cases hreader
      exact honest
  | fill n =>
      obtain ⟨writerAlive, got, hreader⟩ := reading_of_next (Or.inl ⟨n, rfl⟩) hnext
      simp only [Tailing.next, hreader] at hnext
      obtain ⟨⟨hbuffer, hpos, hwithin⟩, heq⟩ := Option.ite_none_right_eq_some.mp hnext
      cases heq
      have hfilled := inv.fill hbuffer hpos hwithin
      rw [hreader] at hfilled
      rw [List.append_nil]
      exact ⟨_, _, _, hfilled⟩
  | endOfFile =>
      obtain ⟨writerAlive, got, hreader⟩ := reading_of_next (Or.inr (Or.inl rfl)) hnext
      simp only [Tailing.next, hreader] at hnext
      obtain ⟨⟨hbuffer, hread⟩, heq⟩ := Option.ite_none_right_eq_some.mp hnext
      have hended := inv.endOfFile hreader hbuffer hread
      rwa [Option.some.inj heq] at hended
  | take =>
      obtain ⟨writerAlive, got, hreader⟩ := reading_of_next (Or.inr (Or.inr rfl)) hnext
      simp only [Tailing.next, hreader] at hnext
      obtain ⟨hbuffer, heq⟩ := Option.ite_none_left_eq_some.mp hnext
      have htaken := inv.take hreader hbuffer
      rwa [Option.some.inj heq] at htaken
  | giveUp =>
      obtain ⟨-, heq⟩ := Option.ite_none_left_eq_some.mp hnext
      cases heq
      rw [List.append_nil]
      exact ⟨_, _, _, inv.moved fun _ hreader => by cases hreader⟩

lemma tailed_of_run {file : List UInt8} (run : Run step Honest returns (opened file) h t) :
    Tailed h t :=
  run.history_invariant (fun _ _ _ _ inv honest hstep => inv.step honest hstep)
    (tailed_opened file)

lemma ended_of_none (hnone : none ∈ (s.afterRead writerAlive got).2) :
    s.unfinished = [] ∧ got = 0 ∧ writerAlive = false := by
  rw [afterRead] at hnone
  by_cases hfeed : s.unfinished.getLast? = some lineFeed
  · rw [if_pos hfeed] at hnone
    simp at hnone
  · rw [if_neg hfeed] at hnone
    by_cases hover : got = 0 ∧ writerAlive = false
    · rw [if_pos hover] at hnone
      by_cases hleft : s.unfinished = []
      · exact ⟨hleft, hover⟩
      · rw [if_neg hleft] at hnone
        simp at hnone
    · rw [if_neg hover] at hnone
      cases hnone

/-- A reader that was given bytes has no cause to end. -/
lemma none_notMem_afterTake : none ∉ (s.afterTake writerAlive got).2 := by
  rw [afterTake]
  cases hrest : s.buffer.dropWhile (· ≠ lineFeed) with
  | nil => exact List.not_mem_nil
  | cons feed rest =>
      intro hnone
      obtain ⟨hempty, -, -⟩ := ended_of_none hnone
      simp at hempty

/-- That there are no more lines is said by a reader at the end of the file, which was told that the
writer has ended. -/
lemma drained_of_none {a : TailAction} (inv : Tailed h s) (honest : s.Honest a)
    (hnone : none ∈ s.returns a) :
    s.writing = false ∧ s.read = s.file.length ∧ s.unfinished = [] ∧ s.buffer = [] := by
  obtain ⟨lines, last, ends, inv⟩ := inv
  cases hnext : s.next a with
  | none =>
      rw [returns, hnext] at hnone
      cases hnone
  | some after =>
      obtain ⟨t, returned⟩ := after
      have hreturned : s.returns a = returned := by rw [returns, hnext]; rfl
      rw [hreturned] at hnone
      cases a with
      | append | stop | call | ask =>
          obtain ⟨-, heq⟩ := Option.ite_none_right_eq_some.mp hnext
          cases heq
          cases hnone
      | fill n =>
          obtain ⟨writerAlive, got, hreader⟩ := reading_of_next (Or.inl ⟨n, rfl⟩) hnext
          simp only [Tailing.next, hreader] at hnext
          obtain ⟨-, heq⟩ := Option.ite_none_right_eq_some.mp hnext
          cases heq
          cases hnone
      | endOfFile =>
          obtain ⟨writerAlive, got, hreader⟩ := reading_of_next (Or.inr (Or.inl rfl)) hnext
          simp only [Tailing.next, hreader] at hnext
          obtain ⟨⟨hbuffer, hread⟩, heq⟩ := Option.ite_none_right_eq_some.mp hnext
          have hover : none ∈ (s.afterRead writerAlive got).2 := by rwa [Option.some.inj heq]
          obtain ⟨hunfinished, rfl, rfl⟩ := ended_of_none hover
          exact ⟨inv.answered 0 hreader, hread, hunfinished, hbuffer⟩
      | take =>
          obtain ⟨writerAlive, got, hreader⟩ := reading_of_next (Or.inr (Or.inr rfl)) hnext
          simp only [Tailing.next, hreader] at hnext
          obtain ⟨-, heq⟩ := Option.ite_none_left_eq_some.mp hnext
          have hover : none ∈ (s.afterTake writerAlive got).2 := by rwa [Option.some.inj heq]
          exact absurd hover none_notMem_afterTake
      | giveUp =>
          obtain ⟨-, heq⟩ := Option.ite_none_left_eq_some.mp hnext
          cases heq
          cases hnone

/-! ## A reader that is told the writer has ended -/

/-- The steps of a reader whose calls are not given up, once the writer has ended. -/
def Told : TailAction → Prop
  | .ask answer => answer = false
  | .call | .fill _ | .endOfFile | .take => True
  | .append _ | .stop | .giveUp => False

/-- How far the reader is from asking, and from knowing that it has read nothing. -/
def TailAt.work : TailAt → ℕ
  | .idle => 2
  | .asking => 1
  | .reading writerAlive got => if got = 0 ∧ writerAlive = false then 0 else 2

/-- What is left to do: a byte costs more unread than in the buffer, and more there than as part of
a line that is held. -/
def work (s : Tailing) : ℕ :=
  7 * (s.file.length - s.read) + 6 * s.buffer.length + (if s.unfinished = [] then 0 else 3) +
    TailAt.work s.reader

/-- Looking for a line's end at the end of the file leaves less to do. -/
lemma work_afterRead (hreader : s.reader = .reading writerAlive got)
    (hnone : none ∉ (s.afterRead writerAlive got).2) :
    (s.afterRead writerAlive got).1.work < s.work := by
  rw [afterRead] at hnone ⊢
  by_cases hfeed : s.unfinished.getLast? = some lineFeed
  · have hheld : s.unfinished ≠ [] := List.ne_nil_of_mem (List.mem_of_getLast? hfeed)
    rw [if_pos hfeed]
    simp only [work, TailAt.work, if_neg hheld, if_true]
    omega
  rw [if_neg hfeed] at hnone ⊢
  by_cases hover : got = 0 ∧ writerAlive = false
  · rw [if_pos hover] at hnone ⊢
    have hheld : s.unfinished ≠ [] := fun hnothing => by simp [hnothing] at hnone
    simp only [work, TailAt.work, if_neg hheld, if_true]
    omega
  · rw [if_neg hover]
    simp only [work, hreader, TailAt.work, if_neg hover]
    omega

/-- Taking from the buffer does. -/
lemma work_afterTake (hbuffer : s.buffer ≠ []) :
    (s.afterTake writerAlive got).1.work < s.work := by
  have hsplit := congrArg List.length
    (List.takeWhile_append_dropWhile (p := (· ≠ lineFeed)) (l := s.buffer))
  have hpos : 0 < s.buffer.length := List.length_pos_iff.mpr hbuffer
  unfold afterTake
  cases hrest : s.buffer.dropWhile (· ≠ lineFeed) with
  | nil =>
      have hheld : s.unfinished ++ s.buffer ≠ [] := by simp [hbuffer]
      have hgot : ¬ (got + s.buffer.length = 0 ∧ writerAlive = false) := by omega
      simp only [work, TailAt.work, if_neg hheld, if_neg hgot, List.length_nil]
      omega
  | cons feed rest =>
      have hfeed : feed = lineFeed := by
        have hstop := List.head?_dropWhile_not (· ≠ lineFeed) s.buffer
        rw [hrest] at hstop
        simpa using hstop
      have hends : (s.unfinished ++ (s.buffer.takeWhile (· ≠ lineFeed) ++ [feed])).getLast? =
          some lineFeed := by
        rw [← List.append_assoc, hfeed]
        exact List.getLast?_concat
      rw [hrest, List.length_append, List.length_cons] at hsplit
      dsimp only
      rw [afterRead, if_pos hends]
      simp only [work, TailAt.work, if_true]
      omega

/-- **Every step of the reader leaves less to do**, but for the one that returns that there are no
more lines. -/
lemma work_lt_of_step {a : TailAction} (told : Told a) (hstep : s.step a = some t)
    (hnone : none ∉ s.returns a) : t.work < s.work := by
  obtain ⟨⟨t', returned⟩, hnext, rfl⟩ := Option.map_eq_some_iff.mp hstep
  have hreturned : s.returns a = returned := by rw [returns, hnext]; rfl
  rw [hreturned] at hnone
  cases a with
  | append | stop | giveUp => exact told.elim
  | call =>
      obtain ⟨hreader, heq⟩ := Option.ite_none_right_eq_some.mp hnext
      cases heq
      simp only [work, TailAt.work, hreader]
      omega
  | ask answer =>
      obtain ⟨hreader, heq⟩ := Option.ite_none_right_eq_some.mp hnext
      cases heq
      have hanswer : answer = false := told
      simp [work, TailAt.work, hreader, hanswer]
  | fill n =>
      obtain ⟨writerAlive, got, hreader⟩ := reading_of_next (Or.inl ⟨n, rfl⟩) hnext
      simp only [Tailing.next, hreader] at hnext
      obtain ⟨⟨hbuffer, hpos, hwithin⟩, heq⟩ := Option.ite_none_right_eq_some.mp hnext
      cases heq
      have hread : ((s.file.drop s.read).take n).length = n := by
        rw [List.length_take, List.length_drop]
        omega
      simp only [work, hreader, hbuffer, hread, List.length_nil]
      omega
  | endOfFile =>
      obtain ⟨writerAlive, got, hreader⟩ := reading_of_next (Or.inr (Or.inl rfl)) hnext
      simp only [Tailing.next, hreader] at hnext
      obtain ⟨-, heq⟩ := Option.ite_none_right_eq_some.mp hnext
      have hless := work_afterRead hreader (by rwa [Option.some.inj heq])
      rwa [Option.some.inj heq] at hless
  | take =>
      obtain ⟨writerAlive, got, hreader⟩ := reading_of_next (Or.inr (Or.inr rfl)) hnext
      simp only [Tailing.next, hreader] at hnext
      obtain ⟨hbuffer, heq⟩ := Option.ite_none_left_eq_some.mp hnext
      have hless := @work_afterTake s got writerAlive hbuffer
      rwa [Option.some.inj heq] at hless

lemma afterRead_within (within : s.read ≤ s.file.length) :
    (s.afterRead writerAlive got).1.read ≤ (s.afterRead writerAlive got).1.file.length := by
  rw [afterRead]
  split_ifs <;> exact within

lemma afterTake_within (within : s.read ≤ s.file.length) :
    (s.afterTake writerAlive got).1.read ≤ (s.afterTake writerAlive got).1.file.length := by
  rw [afterTake]
  split
  · exact within
  · exact afterRead_within within

/-- The reader is never stuck, and reads no further than the file goes. -/
lemma exists_told_step (within : s.read ≤ s.file.length) :
    ∃ a t, Told a ∧ s.step a = some t ∧ t.read ≤ t.file.length := by
  cases hreader : s.reader with
  | idle =>
      exact ⟨.call, { s with reader := .asking }, trivial, by simp [step, next, hreader], within⟩
  | asking =>
      exact ⟨.ask false, { s with reader := .reading false 0 }, rfl,
        by simp [step, next, hreader], within⟩
  | reading writerAlive got =>
      by_cases hbuffer : s.buffer = []
      · rcases within.lt_or_eq with hless | hread
        · exact ⟨.fill 1, { s with buffer := (s.file.drop s.read).take 1, read := s.read + 1 },
            trivial, by simp [step, next, hreader, hbuffer, Nat.succ_le_of_lt hless], hless⟩
        · exact ⟨.endOfFile, (s.afterRead writerAlive got).1, trivial,
            by simp [step, next, hreader, hbuffer, hread], afterRead_within within⟩
      · exact ⟨.take, (s.afterTake writerAlive got).1, trivial,
          by simp [step, next, hreader, hbuffer], afterTake_within within⟩

/-- A reader does not make the writer end, or begin. -/
lemma writing_of_told {a : TailAction} (told : Told a) (hstep : s.step a = some t) :
    t.writing = s.writing := by
  have hread : ∀ writerAlive got, (s.afterRead writerAlive got).1.writing = s.writing := by
    intro writerAlive got
    rw [afterRead]
    split_ifs <;> rfl
  obtain ⟨⟨t', returned⟩, hnext, rfl⟩ := Option.map_eq_some_iff.mp hstep
  cases a with
  | append | stop | giveUp => exact told.elim
  | call | ask =>
      obtain ⟨-, heq⟩ := Option.ite_none_right_eq_some.mp hnext
      cases heq
      rfl
  | fill n =>
      obtain ⟨writerAlive, got, hreader⟩ := reading_of_next (Or.inl ⟨n, rfl⟩) hnext
      simp only [Tailing.next, hreader] at hnext
      obtain ⟨-, heq⟩ := Option.ite_none_right_eq_some.mp hnext
      cases heq
      rfl
  | endOfFile =>
      obtain ⟨writerAlive, got, hreader⟩ := reading_of_next (Or.inr (Or.inl rfl)) hnext
      simp only [Tailing.next, hreader] at hnext
      obtain ⟨-, heq⟩ := Option.ite_none_right_eq_some.mp hnext
      rw [← congrArg Prod.fst (Option.some.inj heq)]
      exact hread writerAlive got
  | take =>
      obtain ⟨writerAlive, got, hreader⟩ := reading_of_next (Or.inr (Or.inr rfl)) hnext
      simp only [Tailing.next, hreader] at hnext
      obtain ⟨-, heq⟩ := Option.ite_none_left_eq_some.mp hnext
      rw [← congrArg Prod.fst (Option.some.inj heq), afterTake]
      split
      · rfl
      · rw [afterRead]
        split_ifs <;> rfl

/-- Where the writer has ended, it is no lie to say so. -/
lemma honest_of_told {a : TailAction} (hwriting : s.writing = false) (told : Told a) :
    s.Honest a := by
  cases a with
  | ask answer =>
      obtain rfl : answer = false := told
      exact hwriting
  | _ => trivial

/-- By induction on what is left to do. -/
lemma ends_of_within (hwriting : s.writing = false) (within : s.read ≤ s.file.length) :
    ∃ k t a, Run step Honest returns s k t ∧ none ∉ k ∧ t.Honest a ∧ none ∈ t.returns a := by
  induction hwork : s.work using Nat.strong_induction_on generalizing s with
  | _ left ih =>
      obtain ⟨a, m, told, hstep, hwithin⟩ := exists_told_step within
      have honest := honest_of_told hwriting told
      by_cases hnone : none ∈ s.returns a
      · exact ⟨[], s, a, .nil s, List.not_mem_nil, honest, hnone⟩
      · have hless : m.work < left := hwork ▸ work_lt_of_step told hstep hnone
        have hended := (writing_of_told told hstep).trans hwriting
        obtain ⟨k, t, b, run, hk, honest', hends⟩ := ih m.work hless hended hwithin rfl
        have hfirst : Run step Honest returns s ([] ++ s.returns a) m :=
          .snoc (.nil s) honest hstep
        refine ⟨s.returns a ++ k, t, b, hfirst.append run, ?_, honest', hends⟩
        rw [List.mem_append]
        exact fun hmem => hmem.elim hnone hk

/-- A reader that is told takes no more than `work` steps, whichever they are. -/
lemma steps_le_work {actions : List TailAction} (done : exec step s actions = some t)
    (told : ∀ a ∈ actions, Told a) (hnone : none ∉ execShown step returns s actions) :
    actions.length ≤ s.work := by
  induction actions generalizing s with
  | nil => exact Nat.zero_le _
  | cons a actions ih =>
      obtain ⟨m, hstep, hrest⟩ := Option.bind_eq_some_iff.mp done
      rw [execShown, hstep, List.mem_append, not_or] at hnone
      have hless := work_lt_of_step (told a List.mem_cons_self) hstep hnone.1
      have hle := ih hrest (fun b hb => told b (List.mem_cons_of_mem a hb)) hnone.2
      rw [List.length_cons]
      omega

/-! ## The lines of a file -/

/-- What was returned before `next_line` first returns that there are no more lines. -/
lemma lines_of_ended {file : List UInt8} {a : TailAction}
    (run : Run step Honest returns (opened file) h s) (honest : s.Honest a) (hfirst : none ∉ h)
    (hnone : none ∈ s.returns a) :
    h = (segments lineFeed s.file).map (some ∘ fromUtf8Lossy) ∧
      s.writing = false ∧ s.read = s.file.length ∧ s.unfinished = [] ∧ s.buffer = [] := by
  have tailed := tailed_of_run run
  have hdrained := drained_of_none tailed honest hnone
  refine ⟨?_, hdrained⟩
  obtain ⟨-, hread, hunfinished, hbuffer⟩ := hdrained
  obtain ⟨lines, last, ends, inv⟩ := tailed
  have hends : ends = 0 := by
    by_contra hpos
    apply hfirst
    rw [inv.shown]
    exact List.mem_append_right _ (List.mem_replicate.mpr ⟨hpos, rfl⟩)
  have hfile : s.file = (lines.flatMap fun line => line ++ [lineFeed]) ++ last := by
    have hbytes := inv.bytes
    rwa [hread, List.take_length, hunfinished, hbuffer, List.append_nil, List.append_nil] at hbytes
  rw [hfile, segments_lines_append inv.whole inv.last_whole, inv.shown, hends, List.replicate_zero,
    List.append_nil]

/-- A writer that appends a line and the beginning of another, and stops. -/
def stoppedMidLine : List TailAction :=
  [.append (utf8 "a\nb"), .call, .ask true, .fill 3, .take, .call, .ask true, .take, .stop,
    .endOfFile, .ask false, .endOfFile, .call, .ask false]

end Tailing

end AssemblyLine
