import AssemblyLine.Log.Report
import AssemblyLine.Round.Stream

/-!
# How a collection settles its job

Three readers draw a verdict from a round's events: `verdictMissingFrom` looks for any,
`verdictOf` takes the last, and the fold of the job's log goes through all of them.
`state_append_of_verdict` and `verdictOf_snoc` are why they agree, and `collect_settles` is what
follows: when `collect` returns, its verdict is the job's state, whatever the stream held and
wherever it was resumed or cut.
-/

namespace AssemblyLine

/-! ## Three readers of a verdict -/

/-- The state a job is in after a verdict. -/
def Verdict.state : Verdict → JobState
  | .passed => .passed
  | .failed => .failed

/-- The kinds of event a round prints. -/
def EventKind.isPrinted : EventKind → Bool
  | .roundCommitted .. => true
  | .branchPushed .. => true
  | .verifyRejected _ => true
  | .roundPassed => true
  | .roundFailed _ => true
  | .pullRequestOpened _ => true
  | .roundRequested .. => false
  | .roundStarted _ => false
  | .roundLaunched _ => false

section Readers

variable {events : List Event} {e : Event} {v : Verdict}

lemma verdictOf_snoc (events : List Event) (e : Event) :
    verdictOf (events ++ [e]) = (e.kind.verdict).getD (verdictOf events) := by
  rw [verdictOf, verdictOf, List.reverse_append, List.reverse_singleton, List.singleton_append,
    List.findSome?_cons]
  cases e.kind.verdict <;> rfl

/-- The fold after a verdict is in the verdict's state. -/
lemma JobProgress.afterEvent_state_of_verdict (p : JobProgress) (h : e.kind.verdict = some v) :
    (p.afterEvent e).state = v.state := by
  obtain ⟨stamp, kind⟩ := e
  cases kind <;> simp [EventKind.verdict] at h <;> subst h <;> rfl

/-- What a round prints besides its verdict leaves the fold's state. -/
lemma JobProgress.afterEvent_state_of_printed (p : JobProgress) (hprinted : e.kind.isPrinted = true)
    (h : e.kind.verdict = none) : (p.afterEvent e).state = p.state := by
  refine (p.afterEvent_of_progress ?_).1
  obtain ⟨stamp, kind⟩ := e
  cases kind <;> simp [EventKind.verdict, EventKind.isPrinted, EventKind.lifecycle] at h hprinted ⊢

/-- The fold of a log that goes on with what a round prints is in the state of the last verdict
printed, or where it was when none is. -/
theorem state_append_printed (log : List Event) (hprinted : ∀ e ∈ events, e.kind.isPrinted = true) :
    (JobProgress.ofEvents (log ++ events)).state =
      if events.any (fun e => e.kind.verdict.isSome) then (verdictOf events).state
      else (JobProgress.ofEvents log).state := by
  induction events using List.reverseRecOn with
  | nil => simp
  | append_singleton events e ih =>
      have hbefore := ih fun x hx => hprinted x (List.mem_append_left _ hx)
      rw [← List.append_assoc, JobProgress.ofEvents_snoc, verdictOf_snoc, List.any_append]
      cases hverdict : e.kind.verdict with
      | none =>
          rw [JobProgress.afterEvent_state_of_printed _ (hprinted e (by simp)) hverdict, hbefore]
          simp [hverdict]
      | some v =>
          rw [JobProgress.afterEvent_state_of_verdict _ hverdict]
          simp [hverdict]

end Readers

/-! ## The end of a collection -/

/-- What is left of `collect` once the stream has ended: the failure it appends itself, if it has
to, and the verdict it returns. -/
def Collection.settle (c : Collection) (d : RoundDisk) (now : Instant) (termination : String) :
    RoundDisk × Verdict :=
  let settled := ((c.settled termination).map (Event.mk now)).toList
  ({ d with events := d.events ++ settled }, verdictOf (c.collected ++ settled))

section Settling

variable {stream : List Line} {d d' : RoundDisk} {c c' : Collection} {s s' : Collecting}

/-- What a collection collects next is what it appends to the job's log. -/
lemma Collection.events_of_next (h : c.next d = some (c', d')) :
    ∃ routed : List Event,
      c'.collected = c.collected ++ routed ∧ d'.events = d.events ++ routed := by
  unfold Collection.next at h
  split at h
  · simp only [Option.some.injEq, Prod.mk.injEq] at h
    obtain ⟨rfl, rfl⟩ := h
    exact ⟨[], by simp, by simp [RoundDisk.recordPosition]⟩
  · split at h
    · cases h
    · rename_i line rest hunread
      simp only [Option.some.injEq, Prod.mk.injEq] at h
      obtain ⟨rfl, rfl⟩ := h
      refine ⟨_, rfl, ?_⟩
      cases (c.position.route line).2 with
      | event seq e => rfl
      | output text => simp [RoundDisk.receive, Collection.eventOf]
      | alreadyCollected => simp [RoundDisk.receive, Collection.eventOf]

/-- A collection's next effect reads a line and routes it, or reads nothing. -/
lemma Collection.reads_of_next (h : c.next d = some (c', d')) :
    (c'.position = c.position ∧ c'.unread = c.unread ∧ c'.collected = c.collected) ∨
      ∃ line, c.unread = line :: c'.unread ∧ c'.position = (c.position.route line).1 ∧
        c'.collected = c.collected ++ (Collection.eventOf (c.position.route line).2).toList := by
  unfold Collection.next at h
  split at h
  · simp only [Option.some.injEq, Prod.mk.injEq] at h
    obtain ⟨rfl, -⟩ := h
    exact .inl ⟨rfl, rfl, rfl⟩
  · split at h
    · cases h
    · rename_i line rest hunread
      simp only [Option.some.injEq, Prod.mk.injEq] at h
      obtain ⟨rfl, -⟩ := h
      exact .inr ⟨line, hunread, rfl, rfl⟩

/-- What has been collected is what the lines read so far are routed to from a bookmark, whatever
lines come after them. -/
def Collection.RoutesFrom (stream : List Line) (bookmark : ℕ) (c : Collection) : Prop :=
  ∃ read routed, stream = read ++ c.unread ∧ c.collected = routed.filterMap Collection.eventOf ∧
    ∀ more, (StreamPosition.after bookmark).routeAll (read ++ more) =
      routed ++ c.position.routeAll more

lemma Collection.RoutesFrom.next {bookmark : ℕ} (routes : c.RoutesFrom stream bookmark)
    (h : c.next d = some (c', d')) : c'.RoutesFrom stream bookmark := by
  obtain ⟨read, routed, hstream, hcollected, hrouted⟩ := routes
  rcases Collection.reads_of_next h with
    ⟨hposition, hunread, hsame⟩ | ⟨line, hunread, hposition, hmore⟩
  · exact ⟨read, routed, by rw [hunread, hstream], by rw [hsame, hcollected],
      by rwa [hposition]⟩
  · refine ⟨read ++ [line], routed ++ [(c.position.route line).2], ?_, ?_, fun more => ?_⟩
    · rw [hstream, hunread, List.append_assoc]
      rfl
    · rw [hmore, hcollected, List.filterMap_append, List.filterMap_cons]
      cases Collection.eventOf (c.position.route line).2 <;> rfl
    · rw [List.append_assoc, List.singleton_append, hrouted, StreamPosition.routeAll,
        List.append_assoc, List.singleton_append, hposition]

/-- One collection of a round's stream: it may be cancelled at any time, and is not killed. -/
def undisturbed : Collecting → CollectAction → Prop := fun _ act => act ≠ .kill

instance (s : Collecting) (act : CollectAction) : Decidable (undisturbed s act) :=
  inferInstanceAs (Decidable (act ≠ .kill))

/-- How far a collection has brought the job's log. -/
structure Collected (stream : List Line) (d : RoundDisk) (s : Collecting) : Prop where
  idle : s.running = none → s.disk = d
  appended : ∀ c, s.running = some c → s.disk.events = d.events ++ c.collected
  reported : ∀ c, s.running = some c →
    (c.collected ++ c.unread.filterMap Line.event?).Sublist (stream.filterMap Line.event?)
  routes : ∀ c, s.running = some c → c.RoutesFrom stream d.lastSeqRouted

/-- Every step of a collection brings the log as far as the collection has come. -/
lemma Collected.step (collected : Collected stream d s) {act : CollectAction}
    (hallowed : undisturbed s act) (h : Collecting.step stream s act = some s') :
    Collected stream d s' := by
  cases act with
  | start =>
      simp only [Collecting.step, Option.ite_none_right_eq_some, Option.some.injEq] at h
      obtain ⟨hidle, rfl⟩ := h
      refine ⟨by simp, ?_, ?_, ?_⟩
      · rintro c ⟨rfl⟩
        simp [collected.idle hidle, Collection.start]
      · rintro c ⟨rfl⟩
        exact List.Sublist.refl _
      · rintro c ⟨rfl⟩
        rw [collected.idle hidle]
        exact ⟨[], [], rfl, rfl, fun more => rfl⟩
  | next =>
      simp only [Collecting.step, Option.bind_eq_some_iff, Option.map_eq_some_iff] at h
      obtain ⟨c, hc, ⟨c', disk⟩, hnext, rfl⟩ := h
      refine ⟨by simp, ?_, ?_, ?_⟩
      · rintro c'' ⟨rfl⟩
        obtain ⟨routed, hcollected, hevents⟩ := Collection.events_of_next hnext
        dsimp only
        rw [hevents, hcollected, collected.appended c hc, List.append_assoc]
      · rintro c'' ⟨rfl⟩
        exact (RoundCollection.sublist_of_next hnext).trans (collected.reported c hc)
      · rintro c'' ⟨rfl⟩
        exact (collected.routes c hc).next hnext
  | cancel =>
      simp only [Collecting.step, Option.bind_eq_some_iff, Option.map_eq_some_iff,
        Collection.cancel, Option.ite_none_left_eq_some, Option.some.injEq] at h
      obtain ⟨c, hc, c', ⟨-, rfl⟩, rfl⟩ := h
      refine ⟨by simp, ?_, ?_, ?_⟩
      · rintro c' ⟨rfl⟩
        exact collected.appended c hc
      · rintro c' ⟨rfl⟩
        exact collected.reported c hc
      · rintro c' ⟨rfl⟩
        exact collected.routes c hc
  | kill => exact absurd rfl hallowed

/-- **Collection always settles the job.**  Whatever a round's stream holds of what `run` prints,
wherever the collection resumes it, whenever it is cancelled and wherever it stops: it has appended
the events that the lines it read are routed to, the verdict `collect` then returns is the state of
the job's log, and `collect` adds a failure exactly when it routed no verdict. -/
theorem collect_settles
    (hprinted : ∀ e ∈ stream.filterMap Line.event?, e.kind.isPrinted = true) {h : List CollectMark}
    (run : Run (Collecting.step stream) undisturbed (Collecting.shown stream) ⟨d, none⟩ h s)
    (hrunning : s.running = some c) (now : Instant) (termination : String) :
    (∃ read, stream = read ++ c.unread ∧ c.collected =
      ((StreamPosition.after d.lastSeqRouted).routeAll read).filterMap Collection.eventOf) ∧
      (c.settle s.disk now termination).1.events =
        d.events ++ c.collected ++ ((c.settled termination).map (Event.mk now)).toList ∧
      (JobProgress.ofEvents (c.settle s.disk now termination).1.events).state =
        (c.settle s.disk now termination).2.state ∧
      ((c.settled termination).isSome ↔ ∀ e ∈ c.collected, e.kind.verdict = none) := by
  have collected : Collected stream d s := by
    refine run.invariant (I := Collected stream d) ?_ ?_
    · intro s act s' hs hallowed hstep
      exact hs.step hallowed hstep
    · exact ⟨fun _ => rfl, nofun, nofun, nofun⟩
  have hreports : ∀ e ∈ c.collected, e.kind.isPrinted = true := by
    intro e he
    exact hprinted e ((collected.reported c hrunning).subset (List.mem_append_left _ he))
  have hevents := collected.appended c hrunning
  have hmissing : (c.settled termination).isSome ↔ ∀ e ∈ c.collected, e.kind.verdict = none := by
    simp only [Collection.settled, verdictMissingFrom]
    split
    · rename_i hany
      obtain ⟨e, he, hverdict⟩ := List.any_eq_true.mp hany
      refine iff_of_false (by simp) fun hnone => ?_
      rw [hnone e he] at hverdict
      cases hverdict
    · rename_i hany
      refine iff_of_true rfl fun e he => ?_
      by_contra hverdict
      exact hany (List.any_eq_true.mpr ⟨e, he, Option.isSome_iff_ne_none.mpr hverdict⟩)
  have hrouted : ∃ read, stream = read ++ c.unread ∧ c.collected =
      ((StreamPosition.after d.lastSeqRouted).routeAll read).filterMap Collection.eventOf := by
    obtain ⟨read, routed, hstream, hcollected, hroutes⟩ := collected.routes c hrunning
    have hread := hroutes []
    rw [List.append_nil, StreamPosition.routeAll, List.append_nil] at hread
    exact ⟨read, hstream, by rw [hcollected, hread]⟩
  refine ⟨hrouted, by simp [Collection.settle, hevents], ?_, hmissing⟩
  simp only [Collection.settle, hevents, List.append_assoc]
  cases hsettled : c.settled termination with
  | none =>
      have hany : c.collected.any (fun e => e.kind.verdict.isSome) = true := by
        by_contra hnone
        simp [Collection.settled, verdictMissingFrom, hnone] at hsettled
      rw [Option.map_none, Option.toList_none, List.append_nil, state_append_printed _ hreports,
        if_pos hany]
  | some kind =>
      -- The failure appended is the last verdict, and every reader takes it.
      have hfails : kind.isPrinted = true ∧ kind.verdict = some .failed := by
        simp only [Collection.settled, verdictMissingFrom] at hsettled
        split at hsettled
        · cases hsettled
        · obtain rfl := Option.some.inj hsettled
          exact ⟨rfl, rfl⟩
      rw [Option.map_some, Option.toList_some, ← List.append_assoc, JobProgress.ofEvents_snoc,
        JobProgress.afterEvent_state_of_verdict _ hfails.2, verdictOf_snoc, hfails.2,
        Option.getD_some]

/-- A round's work, which an earlier collection has half of, and no verdict. -/
def cutStream : List Line :=
  [⟨"committed", some ⟨1, .event ⟨1, .roundCommitted "5e1f" 1 2 0⟩⟩⟩, ⟨"not a frame", none⟩,
    ⟨"pushed", some ⟨2, .event ⟨2, .branchPushed "al/job-7" "origin"⟩⟩⟩]

/-- The log and the bookmark the earlier collection left. -/
def cutDisk : RoundDisk where
  events :=
    [⟨0, .roundRequested "https://github.com/o/r" ⟨"main", "c0de"⟩ "fix it" "claude"⟩,
      ⟨0, .roundStarted 1⟩, ⟨0, .roundLaunched (.docker "al-7-1")⟩,
      ⟨1, .roundCommitted "5e1f" 1 2 0⟩]
  output := []
  position := some 1

/-- Resumed past the commit and cancelled, the round is settled as failed. -/
theorem collect_settles_cut : ∃ s c,
    exec (fun s act => if undisturbed s act then Collecting.step cutStream s act else none)
      ⟨cutDisk, none⟩ [.start, .next, .cancel, .next, .next, .next] = some s ∧
      s.running = some c ∧ c.unread = [] ∧
      (JobProgress.ofEvents cutDisk.events).state = .running ∧
      (JobProgress.ofEvents (c.settle s.disk 5 "killed").1.events).state = .failed := by
  refine ⟨_, _, rfl, rfl, rfl, rfl, ?_⟩
  have run : Run _ (fun _ _ => True) (Collecting.shown cutStream) ⟨cutDisk, none⟩ _ _ :=
    .of_exec (rfl : exec
      (fun s act => if undisturbed s act then Collecting.step cutStream s act else none) _
      [.start, .next, .cancel, .next, .next, .next] = some _)
  exact (collect_settles (by decide) run.of_guarded rfl 5 "killed").2.2.1

end Settling

end AssemblyLine
