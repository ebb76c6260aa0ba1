import AssemblyLine.Daemon.Fleet

/-!
# What a job is owed, by its last lifecycle event

The fold keeps fifteen fields, and what a starting daemon owes a job depends on two of them: the
state, which only the four kinds of event that open or end a round set, and the handle, which each
opening clears.  So `owed_iff` needs no more of a log than the last event that opens or ends a
round and what follows it, in whatever order the log came to hold its events.
-/

namespace AssemblyLine

/-- The kinds of event that open or end a round. -/
def EventKind.turns : EventKind → Bool
  | .roundRequested .. => true
  | .roundStarted _ => true
  | .roundPassed => true
  | .roundFailed _ => true
  | _ => false

/-- The last event of a log that opens or ends a round, and what follows it. -/
abbrev LastTurn : List Event → Event → List Event → Prop := LastIn fun e => e.kind.turns = true

/-- The handle the last `RoundLaunched` of a list of events records. -/
def LastHandle (events : List Event) (handle : RoundHandle) : Prop :=
  ∃ stamp later, LastIn (fun e => e.kind.lifecycle = some .launched) events
    ⟨stamp, .roundLaunched handle⟩ later

namespace JobProgress

variable {events after : List Event} {e : Event}

/-- An event that neither opens nor ends a round leaves the state alone. -/
lemma state_afterEvent_of_turns (p : JobProgress) (h : e.kind.turns ≠ true) :
    (p.afterEvent e).state = p.state := by
  obtain ⟨stamp, kind⟩ := e
  cases kind <;> simp_all [afterEvent, EventKind.turns]

/-- The state a log is in when no event of it opens or ends a round. -/
lemma state_of_no_turn (h : ∀ e ∈ events, ¬ e.kind.turns = true) :
    (ofEvents events).state = .pending := by
  induction events using List.reverseRecOn with
  | nil => rfl
  | append_singleton events e ih =>
      rw [ofEvents_snoc, state_afterEvent_of_turns _ (h e (by simp))]
      exact ih fun x hx => h x (by simp [hx])

/-- The last event that opens or ends a round decides the state. -/
lemma state_of_lastTurn (h : LastTurn events e after) :
    (ofEvents events).state = match e.kind with
      | .roundRequested .. => .queued
      | .roundStarted _ => .running
      | .roundPassed => .passed
      | _ => .failed := by
  have hturns := h.2.1
  refine ofEvents_of_lastIn (Q := fun _ p => p.state = _) h (fun p => ?_)
    (fun p older x hx hp => ?_)
  · obtain ⟨stamp, kind⟩ := e
    cases kind <;> simp_all [afterEvent, EventKind.turns]
  · rw [state_afterEvent_of_turns p hx, hp]

lemma launched_afterEvent_of_ne (p : JobProgress) (h : e.kind.turns ≠ true)
    (hlaunched : e.kind.lifecycle ≠ some .launched) : (p.afterEvent e).launched = p.launched := by
  obtain ⟨stamp, kind⟩ := e
  cases kind <;> simp_all [afterEvent, EventKind.turns, EventKind.lifecycle]

/-- After the last event that opens or ends a round, the handle is the one recorded since: a
started round begins without one. -/
lemma launched_of_lastTurn (h : LastTurn events e after)
    (hstarted : e.kind.lifecycle = some .started) (handle : RoundHandle) :
    (ofEvents events).launched = some handle ↔ LastHandle after handle := by
  refine ofEvents_of_lastIn
    (Q := fun after p => p.launched = some handle ↔ LastHandle after handle) h
    (fun p => ?_) (fun p older x hx hp => ?_)
  · obtain ⟨stamp, kind⟩ := e
    cases kind <;> simp_all [afterEvent, EventKind.lifecycle, LastHandle]
  · by_cases hlaunched : x.kind.lifecycle = some .launched
    · obtain ⟨stamp, kind⟩ := x
      cases kind <;> simp [EventKind.lifecycle] at hlaunched
      simp [afterEvent, LastHandle, lastIn_snoc, EventKind.lifecycle, eq_comm]
    · rw [launched_afterEvent_of_ne p hx hlaunched, hp]
      simp [LastHandle, lastIn_snoc, hlaunched]

end JobProgress

/-- The round a started log is in is the highest number any `RoundStarted` of it records. -/
lemma isGreatest_rounds {events : List Event} {e : Event} (he : e ∈ events)
    (hstarted : e.kind.lifecycle = some .started) :
    IsGreatest {n | n ∈ startedRounds events} (JobProgress.ofEvents events).rounds := by
  rw [JobProgress.rounds_ofEvents]
  apply isGreatest_foldl_max
  obtain ⟨stamp, kind⟩ := e
  cases kind <;> simp [EventKind.lifecycle] at hstarted
  rename_i round
  have hmem : round ∈ startedRounds events := List.mem_filterMap.mpr ⟨_, he, rfl⟩
  exact List.ne_nil_of_mem hmem

/-- Among the events after the last turn there is a last handle, or no launch at all. -/
lemma lastHandle_or_none (events : List Event) :
    (∃ handle, LastHandle events handle) ∨ ∀ e ∈ events, e.kind.lifecycle ≠ some .launched := by
  rcases lastIn_or_none (fun e : Event => e.kind.lifecycle = some .launched) events with
    ⟨⟨stamp, kind⟩, later, hlast⟩ | hnone
  · have hlaunched := hlast.2.1
    cases kind <;> simp [EventKind.lifecycle] at hlaunched
    exact Or.inl ⟨_, stamp, later, hlast⟩
  · exact Or.inr hnone

/-- There is one last handle. -/
lemma LastHandle.unique {events : List Event} {handle handle' : RoundHandle}
    (h : LastHandle events handle) (h' : LastHandle events handle') : handle = handle' := by
  obtain ⟨stamp, later, hlast⟩ := h
  obtain ⟨stamp', later', hlast'⟩ := h'
  have hsame := (hlast.unique hlast').1
  simpa using (congrArg Event.kind hsame)

lemma not_lastHandle_of_none {events : List Event} {handle : RoundHandle}
    (h : ∀ e ∈ events, e.kind.lifecycle ≠ some .launched) : ¬ LastHandle events handle := by
  rintro ⟨stamp, later, hlast⟩
  exact h _ hlast.mem rfl

/-! ## What is owed, case by case -/

section Owed

variable {id : ℕ} {events after : List Event} {e : Event}

lemma owed_of_requested (h : LastTurn events e after) (he : e.kind.lifecycle = some .requested) :
    owed id events = some .requeue := by
  have hstate := JobProgress.state_of_lastTurn h
  obtain ⟨stamp, kind⟩ := e
  cases kind <;> simp [EventKind.lifecycle] at he
  rw [owed, Resumption.forReport, JobReport.fromEvents_state, hstate]

lemma owed_of_started (h : LastTurn events e after) (he : e.kind.lifecycle = some .started) :
    owed id events = match (JobProgress.ofEvents events).launched with
      | some handle => some (.reattach (JobProgress.ofEvents events).rounds handle)
      | none => some (.lostWhileLaunching (JobProgress.ofEvents events).rounds) := by
  have hstate := JobProgress.state_of_lastTurn h
  obtain ⟨stamp, kind⟩ := e
  cases kind <;> simp [EventKind.lifecycle] at he
  rw [owed, Resumption.forReport, JobReport.fromEvents_state, JobReport.fromEvents_launched,
    JobReport.fromEvents_rounds, hstate]
  cases (JobProgress.ofEvents events).launched <;> rfl

lemma owed_of_reattach (h : LastTurn events e after) (he : e.kind.lifecycle = some .started)
    {handle : RoundHandle} (hhandle : LastHandle after handle) :
    owed id events = some (.reattach (JobProgress.ofEvents events).rounds handle) := by
  rw [owed_of_started h he, (JobProgress.launched_of_lastTurn h he handle).mpr hhandle]

lemma owed_of_lost (h : LastTurn events e after) (he : e.kind.lifecycle = some .started)
    (hnone : ∀ x ∈ after, x.kind.lifecycle ≠ some .launched) :
    owed id events = some (.lostWhileLaunching (JobProgress.ofEvents events).rounds) := by
  have hlaunched : (JobProgress.ofEvents events).launched = none := by
    refine Option.eq_none_iff_forall_ne_some.mpr fun handle hhandle => ?_
    exact not_lastHandle_of_none hnone ((JobProgress.launched_of_lastTurn h he handle).mp hhandle)
  rw [owed_of_started h he, hlaunched]

/-- A log whose last turn ended a round, or that has none, is owed nothing. -/
lemma owed_of_neither (h : ∀ e after, LastTurn events e after →
    e.kind.lifecycle ≠ some .requested ∧ e.kind.lifecycle ≠ some .started) :
    owed id events = none := by
  rcases lastIn_or_none (fun e : Event => e.kind.turns = true) events with
    ⟨⟨stamp, kind⟩, after, hlast⟩ | hnone
  · have hneither := h _ _ hlast
    have hturns := hlast.2.1
    have hstate := JobProgress.state_of_lastTurn hlast
    rw [owed, Resumption.forReport, JobReport.fromEvents_state, hstate]
    cases kind <;> simp_all [EventKind.lifecycle, EventKind.turns]
  · rw [owed, Resumption.forReport, JobReport.fromEvents_state,
      JobProgress.state_of_no_turn hnone]

end Owed

/-- **What a job is owed depends on its last turn alone.**  Whatever events a log holds, in
whatever order: its job goes back in the queue exactly when the last event that opens or ends a
round is a `RoundRequested`; when it is a `RoundStarted` the job is reattached to by the handle of
the last `RoundLaunched` after it, or is lost if none comes after it, in either case in the highest
round any `RoundStarted` records; and otherwise it is owed nothing. -/
theorem owed_iff (id : ℕ) (events : List Event) :
    (Resumption.forReport (.fromEvents id events) = some .requeue ↔
      ∃ e after, LastTurn events e after ∧ e.kind.lifecycle = some .requested) ∧
    (∀ round handle,
      Resumption.forReport (.fromEvents id events) = some (.reattach round handle) ↔
        IsGreatest {n | n ∈ startedRounds events} round ∧
          ∃ e after, LastTurn events e after ∧ e.kind.lifecycle = some .started ∧
            LastHandle after handle) ∧
    (∀ round,
      Resumption.forReport (.fromEvents id events) = some (.lostWhileLaunching round) ↔
        IsGreatest {n | n ∈ startedRounds events} round ∧
          ∃ e after, LastTurn events e after ∧ e.kind.lifecycle = some .started ∧
            ∀ x ∈ after, x.kind.lifecycle ≠ some .launched) ∧
    (Resumption.forReport (.fromEvents id events) = none ↔
      ∀ e after, LastTurn events e after →
        e.kind.lifecycle ≠ some .requested ∧ e.kind.lifecycle ≠ some .started) := by
  change (owed id events = _ ↔ _) ∧ (∀ _ _, owed id events = _ ↔ _) ∧
    (∀ _, owed id events = _ ↔ _) ∧ (owed id events = none ↔ _)
  by_cases hopen : ∃ e after, LastTurn events e after ∧
      (e.kind.lifecycle = some .requested ∨ e.kind.lifecycle = some .started)
  · obtain ⟨e, after, hlast, hkind⟩ := hopen
    have hsame : ∀ {x later}, LastTurn events x later → x = e ∧ later = after :=
      fun hlast' => hlast'.unique hlast
    have hfew : ¬ ∀ x later, LastTurn events x later →
        x.kind.lifecycle ≠ some .requested ∧ x.kind.lifecycle ≠ some .started := by
      intro hneither
      exact hkind.elim (hneither e after hlast).1 (hneither e after hlast).2
    rcases hkind with hrequested | hstarted
    · have hnot : ¬ ∃ x later, LastTurn events x later ∧ x.kind.lifecycle = some .started := by
        rintro ⟨x, later, hlast', hstarted⟩
        obtain ⟨rfl, rfl⟩ := hsame hlast'
        simp [hrequested] at hstarted
      rw [owed_of_requested hlast hrequested]
      refine ⟨iff_of_true rfl ⟨e, after, hlast, hrequested⟩, fun round handle => ?_,
        fun round => ?_, iff_of_false (by simp) hfew⟩
      · refine iff_of_false (by simp) ?_
        rintro ⟨-, x, later, hlast', hstarted, -⟩
        exact hnot ⟨x, later, hlast', hstarted⟩
      · refine iff_of_false (by simp) ?_
        rintro ⟨-, x, later, hlast', hstarted, -⟩
        exact hnot ⟨x, later, hlast', hstarted⟩
    · have hrounds := isGreatest_rounds hlast.mem hstarted
      have hnot : ¬ ∃ x later, LastTurn events x later ∧ x.kind.lifecycle = some .requested := by
        rintro ⟨x, later, hlast', hrequested⟩
        obtain ⟨rfl, rfl⟩ := hsame hlast'
        simp [hstarted] at hrequested
      rcases lastHandle_or_none after with ⟨handle, hhandle⟩ | hnone
      · rw [owed_of_reattach hlast hstarted hhandle]
        refine ⟨iff_of_false (by simp) hnot, fun round handle' => ?_, fun round => ?_,
          iff_of_false (by simp) hfew⟩
        · rw [Option.some.injEq, Resumption.reattach.injEq]
          constructor
          · rintro ⟨rfl, rfl⟩
            exact ⟨hrounds, e, after, hlast, hstarted, hhandle⟩
          · rintro ⟨hgreatest, x, later, hlast', -, hhandle'⟩
            obtain ⟨rfl, rfl⟩ := hsame hlast'
            exact ⟨hrounds.unique hgreatest, hhandle.unique hhandle'⟩
        · refine iff_of_false (by simp) ?_
          rintro ⟨-, x, later, hlast', -, hnone⟩
          obtain ⟨rfl, rfl⟩ := hsame hlast'
          exact not_lastHandle_of_none hnone hhandle
      · rw [owed_of_lost hlast hstarted hnone]
        refine ⟨iff_of_false (by simp) hnot, fun round handle => ?_, fun round => ?_,
          iff_of_false (by simp) hfew⟩
        · refine iff_of_false (by simp) ?_
          rintro ⟨-, x, later, hlast', -, hhandle⟩
          obtain ⟨rfl, rfl⟩ := hsame hlast'
          exact not_lastHandle_of_none hnone hhandle
        · rw [Option.some.injEq, Resumption.lostWhileLaunching.injEq]
          constructor
          · rintro rfl
            exact ⟨hrounds, e, after, hlast, hstarted, hnone⟩
          · rintro ⟨hgreatest, -⟩
            exact hrounds.unique hgreatest
  · have hneither : ∀ e after, LastTurn events e after →
        e.kind.lifecycle ≠ some .requested ∧ e.kind.lifecycle ≠ some .started :=
      fun e after hlast => ⟨fun h => hopen ⟨e, after, hlast, Or.inl h⟩,
        fun h => hopen ⟨e, after, hlast, Or.inr h⟩⟩
    rw [owed_of_neither hneither]
    refine ⟨iff_of_false (by simp) ?_, fun round handle => iff_of_false (by simp) ?_,
      fun round => iff_of_false (by simp) ?_, iff_of_true rfl hneither⟩
    · rintro ⟨e, after, hlast, hrequested⟩
      exact (hneither e after hlast).1 hrequested
    · rintro ⟨-, e, after, hlast, hstarted, -⟩
      exact (hneither e after hlast).2 hstarted
    · rintro ⟨-, e, after, hlast, hstarted, -⟩
      exact (hneither e after hlast).2 hstarted

end AssemblyLine
