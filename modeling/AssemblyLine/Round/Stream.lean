import AssemblyLine.Round.Collect

/-!
# A round's own stream

What a daemon assumes of a round it launched: the stream reports at most one verdict, and nothing
else that moves a job through its lifecycle.  `RoundStream` is such a stream and `RoundCollection`
a collection of one, so every state of a round's collection keeps the assumption.
-/

namespace AssemblyLine

/-- Whether an event is a verdict. -/
def Event.isVerdict (e : Event) : Bool := e.kind.verdict.isSome

/-- Reports progress, and at most one verdict. -/
structure ReportsOnce (events : List Event) : Prop where
  reports : ∀ e ∈ events, e.kind.lifecycle = none ∨ e.isVerdict
  once : events.countP Event.isVerdict ≤ 1

/-- A launched round's stream. -/
structure RoundStream where
  lines : List Line
  reportsOnce : ReportsOnce (lines.filterMap Line.event?)

/-- A collection of a launched round's stream. -/
structure RoundCollection extends Collection where
  reportsOnce : ReportsOnce (collected ++ unread.filterMap Line.event?)

/-- A line routed as an event carries it. -/
lemma StreamPosition.event?_of_route {p : StreamPosition} {line : Line} {seq : ℕ} {e : Event}
    (h : (p.route line).2 = .event seq e) : line.event? = some e := by
  unfold StreamPosition.route at h
  split at h
  · split at h <;> simp at h
  · rename_i frame hframe
    obtain ⟨fseq, body⟩ := frame
    split at h
    · simp at h
    · cases body <;> simp_all [Line.event?]

/-- Leaving an event out keeps `ReportsOnce`. -/
lemma ReportsOnce.of_sublist {events fewer : List Event} (h : ReportsOnce events)
    (hsub : fewer.Sublist events) : ReportsOnce fewer where
  reports e he := h.reports e (hsub.subset he)
  once := (hsub.countP_le).trans h.once

namespace RoundCollection

/-- The collection of a stream from its start, resuming from the disk's bookmark. -/
def start (d : RoundDisk) (stream : RoundStream) : RoundCollection where
  toCollection := Collection.start d stream.lines
  reportsOnce := stream.reportsOnce

/-- What a collection's next effect leaves of its stream's events: those it had, or one fewer. -/
lemma sublist_of_next {c c' : Collection} {d d' : RoundDisk} (h : c.next d = some (c', d')) :
    (c'.collected ++ c'.unread.filterMap Line.event?).Sublist
      (c.collected ++ c.unread.filterMap Line.event?) := by
  unfold Collection.next at h
  split at h
  · simp only [Option.some.injEq, Prod.mk.injEq] at h
    obtain ⟨rfl, -⟩ := h
    exact List.Sublist.refl _
  · split at h
    · simp at h
    · rename_i line rest hunread
      simp only [Option.some.injEq, Prod.mk.injEq] at h
      obtain ⟨rfl, -⟩ := h
      rw [hunread, List.append_assoc]
      refine List.Sublist.append_left ?_ _
      cases hrouted : (c.position.route line).2 with
      | event seq e =>
          rw [List.filterMap_cons_some (StreamPosition.event?_of_route hrouted)]
          exact List.Sublist.refl _
      | output text => exact (List.sublist_cons_self line rest).filterMap _
      | alreadyCollected => exact (List.sublist_cons_self line rest).filterMap _

/-- One effect on the disk; `none` once the stream has ended. -/
def next (c : RoundCollection) (d : RoundDisk) : Option (RoundCollection × RoundDisk) :=
  match h : c.toCollection.next d with
  | none => none
  | some (c', d') => some (⟨c', c.reportsOnce.of_sublist (sublist_of_next h)⟩, d')

/-- Stop the round; it reads on until the stream ends. -/
def cancel (c : RoundCollection) : Option RoundCollection :=
  if c.cancelling then none else some ⟨{ c.toCollection with cancelling := true }, c.reportsOnce⟩

/-- Whether the collection has seen the round's verdict. -/
def judged (c : RoundCollection) : Bool := c.collected.any Event.isVerdict

/-- What one effect of a collection is to the job's log. -/
inductive LogEffect (c c' : RoundCollection) (events events' : List Event) : Prop
  | none (same : events' = events) (judged : c'.judged = c.judged)
  | progress (e : Event) (appended : events' = events ++ [e]) (reports : e.kind.lifecycle = none)
      (judged : c'.judged = c.judged)
  | verdict (e : Event) (appended : events' = events ++ [e]) (isVerdict : e.isVerdict)
      (unjudged : c.judged = false) (judged : c'.judged = true)

/-- An event collected next is one the stream may report, and the first verdict if it is one. -/
lemma unjudged_of_collected {c : RoundCollection} {line : Line} {rest : List Line} {e : Event}
    (hunread : c.unread = line :: rest) (hevent : line.event? = some e) (hverdict : e.isVerdict) :
    c.judged = false := by
  have honce := c.reportsOnce.once
  rw [hunread, List.filterMap_cons_some hevent, List.countP_append,
    List.countP_cons_of_pos hverdict] at honce
  have hzero : c.collected.countP Event.isVerdict = 0 := by omega
  rw [List.countP_eq_zero] at hzero
  simpa [judged] using hzero

/-- What the next effect of a collection is to the job's log. -/
theorem logEffect_of_next {c c' : RoundCollection} {d d' : RoundDisk}
    (h : c.next d = some (c', d')) : LogEffect c c' d.events d'.events := by
  obtain ⟨inner, hnext, hinner⟩ : ∃ inner, c.toCollection.next d = some (inner, d') ∧
      c'.toCollection = inner := by
    unfold next at h
    split at h
    · simp at h
    · rename_i inner disk hnext
      simp only [Option.some.injEq, Prod.mk.injEq] at h
      obtain ⟨rfl, rfl⟩ := h
      exact ⟨inner, hnext, rfl⟩
  unfold Collection.next at hnext
  split at hnext
  · simp only [Option.some.injEq, Prod.mk.injEq] at hnext
    obtain ⟨rfl, rfl⟩ := hnext
    exact .none rfl (by rw [judged, judged, hinner])
  · split at hnext
    · simp at hnext
    · rename_i line rest hunread
      simp only [Option.some.injEq, Prod.mk.injEq] at hnext
      obtain ⟨rfl, rfl⟩ := hnext
      have hcollected : c'.collected =
          c.collected ++ (Collection.eventOf (c.position.route line).2).toList := by rw [hinner]
      cases hrouted : (c.position.route line).2 with
      | event seq e =>
          have hevent := StreamPosition.event?_of_route hrouted
          rw [hrouted, Collection.eventOf, Option.toList_some] at hcollected
          by_cases hverdict : e.isVerdict
          · exact .verdict e rfl hverdict (unjudged_of_collected hunread hevent hverdict)
              (by simp [judged, hcollected, hverdict])
          · refine .progress e rfl ?_ (by simp [judged, hcollected, hverdict])
            refine (c.reportsOnce.reports e ?_).resolve_right hverdict
            rw [hunread, List.filterMap_cons_some hevent]
            simp
      | output text =>
          exact .none rfl (by simp [judged, hcollected, hrouted, Collection.eventOf])
      | alreadyCollected =>
          exact .none rfl (by simp [judged, hcollected, hrouted, Collection.eventOf])

lemma judged_cancel {c c' : RoundCollection} (h : c.cancel = some c') : c'.judged = c.judged := by
  simp only [cancel, Option.ite_none_left_eq_some, Option.some.injEq] at h
  rw [← h.2]
  rfl

end RoundCollection

end AssemblyLine
