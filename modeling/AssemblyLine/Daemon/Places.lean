import AssemblyLine.Daemon.Slots

/-!
# No queued job is stranded, but for two kinds

While a job is queued, something is still to bring it to its round: a place in line, the submit
about to put it there, or its round, registered and not started.  `Placed` says so of a state, and
a daemon keeps it in every step but one (`queued_jobs_placed`).

The one: a round cancelled before it starts has recorded its verdict and still has its entry in the
cancel table when the job is revised, and the dispatcher meets the job before the entry is taken
out.  The revised round has the same number, so the entry answers for it and the job's place in
line is thrown away (`revised_job_stranded`).

The other is stranded from the start: a queued job whose directory lies below another job's is not
found by the daemon that starts on it (`Daemon.Misses`).
-/

namespace AssemblyLine

namespace Daemon

/-- Whether a submit has recorded `a`'s request and is about to put the job in line. -/
def aboutToEnqueue (cfg : Config) (d : Daemon) (a : JobAddress) : Prop :=
  cfg.address a.key a.id = a ∧ d.submits a.key = some (.recorded a.id)

instance (cfg : Config) (d : Daemon) (a : JobAddress) : Decidable (d.aboutToEnqueue cfg a) :=
  inferInstanceAs (Decidable (_ ∧ _))

/-- Whether a round registered for `a`'s latest request has its first lifecycle event to come. -/
def roundToStart (root : Root) (d : Daemon) (a : JobAddress) : Prop :=
  ∃ token, token < d.nextToken ∧ ((d.tasks token).any fun t =>
    t.address = a ∧ t.phase.stage = .waiting ∧ t.asked = requestsIn (root.events a)) = true

instance (root : Root) (d : Daemon) (a : JobAddress) : Decidable (d.roundToStart root a) :=
  inferInstanceAs (Decidable (∃ token, token < d.nextToken ∧ _))

/-- Something is still to bring a queued job to its round. -/
def Placed (d : Daemon) (cfg : Config) (root : Root) (a : JobAddress) : Prop :=
  a ∈ d.queue.pending ∨ d.dispatcher = .waiting a ∨ d.dispatcher = .looking a ∨
    d.aboutToEnqueue cfg a ∨ d.roundToStart root a

instance (cfg : Config) (root : Root) (d : Daemon) (a : JobAddress) :
    Decidable (d.Placed cfg root a) :=
  inferInstanceAs (Decidable (_ ∨ _ ∨ _ ∨ _ ∨ _))

/-- Whether the dispatcher, looking at a queued job, would throw its last place in line away on
account of a round that is over: the round has the number of the job's next one, and its entry is
still in the cancel table. -/
def discardsLastPlace (cfg : Config) (root : Root) (d : Daemon) : Bool :=
  match d.dispatcher with
  | .looking a =>
    decide ((root.report a).state = .queued ∧ a ∉ d.queue.pending ∧ ¬ d.aboutToEnqueue cfg a) &&
      (d.queue.cancels a).any fun launched =>
        decide (launched.round = (root.report a).rounds + 1) &&
          (d.tasks launched.cancel).any fun t => t.phase.stage = .over
  | _ => false

end Daemon

/-- The steps in which a daemon that is not stopping throws no queued job's last place in line
away for a round that is over, and one that starts finds every queued job. -/
def KeepsPlaces (cfg : Config) (w : World) : WorldAction → Prop
  | .act .look =>
    ∀ d ∈ w.daemon, d.queue.stopping = false → d.discardsLastPlace cfg w.root = false
  | .start _ => w.root.FindsEvery fun report => report.state = .queued
  | _ => True

instance (cfg : Config) (w : World) (act : WorldAction) : Decidable (KeepsPlaces cfg w act) :=
  match act with
  | .act .look => inferInstanceAs (Decidable (∀ d ∈ w.daemon, _))
  | .start _ =>
    inferInstanceAs (Decidable (w.root.FindsEvery fun report => report.state = .queued))
  | .kill => .isTrue trivial
  | .act (.resume _) | .act .requeue | .act .serve | .act (.hold _ _) | .act (.continueJob _)
  | .act (.createJob _ _) | .act (.recordRequest _ _ _ _) | .act (.enqueue _) | .act (.refuse _)
  | .act (.cancel _ _) | .act .stopLaunching | .act .receive | .act .slotFree
  | .act .countLaunching | .act .spawn | .act .dispatcherStops | .act (.task _ _) => .isTrue trivial

/-! ## What a step leaves of a place -/

section Steps

variable {cfg : Config} {root root' : Root} {d d' : Daemon} {token : Token} {t : RoundTask}
  {a b : JobAddress}

/-- The view's side of `roundToStart`. -/
lemma DaemonInv.roundToStart_iff (inv : DaemonInv cfg root d) :
    d.roundToStart root a ↔ ∃ token m, d.crew a token = some m ∧ m.stage = .waiting := by
  constructor
  · rintro ⟨token, -, hany⟩
    rw [Option.any_eq_true] at hany
    obtain ⟨t, ht, hwaits⟩ := hany
    simp only [Bool.decide_and, Bool.and_eq_true, decide_eq_true_eq] at hwaits
    obtain ⟨rfl, hstage, -⟩ := hwaits
    exact ⟨token, t.crewman, Daemon.crew_of_task ht, hstage⟩
  · rintro ⟨token, m, hm, hstage⟩
    obtain ⟨-, -, hasked, -⟩ := (inv.job a).atWork token m hm (by simp [hstage])
    obtain ⟨t, ht, rfl, rfl⟩ := Daemon.task_of_crew hm
    refine ⟨token, inv.lt_next ht, ?_⟩
    rw [Option.any_eq_true]
    refine ⟨t, ht, ?_⟩
    simp only [Bool.decide_and, Bool.and_eq_true, decide_eq_true_eq]
    exact ⟨trivial, hstage, hasked⟩

/-- A task that is not waiting, or another job's, takes no waiting round with it. -/
lemma TaskFrame.keepsWaiting (frame : TaskFrame root d token t root' d')
    (ht : d.tasks token = some t) (hother : t.address ≠ a ∨ t.phase.stage ≠ .waiting)
    (hwaits : ∃ token m, d.crew a token = some m ∧ m.stage = .waiting) :
    ∃ token m, d'.crew a token = some m ∧ m.stage = .waiting := by
  obtain ⟨token', m, hm, hstage⟩ := hwaits
  obtain ⟨t', ht', rfl, rfl⟩ := Daemon.task_of_crew hm
  have hne : token' ≠ token := by
    rintro rfl
    obtain rfl : t = t' := Option.some.inj (ht.symm.trans ht')
    rcases hother with hother | hother
    · exact hother rfl
    · exact hother hstage
  obtain ⟨changed, htasks, -⟩ := frame.task
  refine ⟨token', t'.crewman, Daemon.crew_of_task ?_, hstage⟩
  rw [htasks, Function.update_of_ne hne, ht']

/-- A job's next letter makes it queued only when a submit records it. -/
lemma JobMove.requested_of {id : ℕ} {v v' : JobView} (inv : JobInv id v) (hmove : JobMove id v v')
    (hs : standing v'.events = some .requested) :
    standing v.events = some .requested ∨ (v.submitting = true ∧ v'.submitting = false) := by
  cases hmove with
  | progress e reports =>
      left
      rwa [standing_snoc_of_progress reports] at hs
  | request e asks admitted => exact .inr ⟨admitted, rfl⟩
  | close e fails open_ unattended =>
      have hidle : standing (v.events ++ [e]) = some .idle := by
        rcases open_ with h | h <;>
          exact standing_snoc_of h (by simp [Standing.afterEvent, fails, Standing.after])
      rw [hidle] at hs
      cases hs
  | advance token m stage e mine working letter legal numbered =>
      have hstands := (inv.atWork token m mine working).1
      have hnext := standing_snoc_of hstands legal
      rw [hnext, Option.some.injEq] at hs
      obtain rfl : stage = .waiting := Stage.standing_injective hs
      obtain ⟨stamp, kind⟩ := e
      cases hstage : m.stage <;> cases kind <;>
        simp [hstage, Stage.standing, Standing.afterEvent, EventKind.lifecycle, Standing.after]
          at legal letter working
  | _ => exact .inl hs

/-- A queued job's request can be read back from its log. -/
lemma request_of_requested (hs : standing (root.events a) = some .requested) :
    (root.report a).request ≠ none := by
  have hmem := requested_mem_of_standing hs (by simp)
  obtain ⟨hremote, hbase, hprompt, hprovider⟩ := JobProgress.hasRequest_of_mem hmem
  obtain ⟨remote, hremote⟩ := Option.isSome_iff_exists.mp hremote
  obtain ⟨base, hbase⟩ := Option.isSome_iff_exists.mp hbase
  obtain ⟨prompt, hprompt⟩ := Option.isSome_iff_exists.mp hprompt
  obtain ⟨provider, hprovider⟩ := Option.isSome_iff_exists.mp hprovider
  simp [JobReport.request, Root.report, JobReport.fromEvents, hremote, hbase, hprompt, hprovider]

/-- A step of a round's task leaves a job that is queued afterwards the round it waited on. -/
lemma TaskEffect.keepsWaiting (effect : TaskEffect root d token t root' d')
    (inv : DaemonInv cfg root d) (ht : d.tasks token = some t)
    (hstopping : d.queue.stopping = false) (hs : standing (root'.events a) = some .requested) :
    standing (root.events a) = some .requested ∧
      ((∃ token m, d.crew a token = some m ∧ m.stage = .waiting) →
        ∃ token m, d'.crew a token = some m ∧ m.stage = .waiting) := by
  have hframe := effect.frame
  have hbefore : standing (root.events a) = some .requested := by
    rcases (effect.moves inv ht a).requested_of (inv.job a) hs with hbefore | ⟨hon, hoff⟩
    · exact hbefore
    · have hsame : (d'.view cfg root' a).submitting = (d.view cfg root a).submitting := by
        simp only [Daemon.view, Daemon.admits, hframe.submits]
      rw [hsame, hon] at hoff
      cases hoff
  refine ⟨hbefore, ?_⟩
  intro hwaits
  by_cases hmine : t.address = a ∧ t.phase.stage = .waiting
  · obtain ⟨rfl, hstage⟩ := hmine
    cases effect with
    | proceeds phase same held holds lived lives fails cancels =>
        have hput : (d.setTask token { t with phase }).tasks token = some { t with phase } :=
          Function.update_self _ _ _
        exact ⟨token, _, Daemon.crew_of_task (t := { t with phase }) hput, same.trans hstage⟩
    | appends now due isDue =>
        -- What a waiting round records, a start or a failure, ends the job's wait.
        obtain ⟨-, hletter, hlegal, -⟩ :=
          Daemon.advance_of_due (inv.failing token t · · ht) isDue now
        rw [Daemon.append_events, if_pos rfl, standing_snoc_of hbefore (hstage ▸ hlegal),
          Option.some.injEq] at hs
        have hstill : due.2.stage = .waiting := Stage.standing_injective hs
        rw [hstage, hstill] at hlegal
        exact absurd hlegal (Standing.afterEvent_ne hletter)
    | abandons waits held lived why =>
        rcases why with hstop | hnone
        · rw [hstopping] at hstop
          cases hstop
        · exact absurd hnone (request_of_requested hbefore)
    | opens stream phase opening opened counted =>
        rw [opening] at hstage
        cases hstage
    | collects c c' disk collecting next =>
        rw [collecting, Daemon.stage_collecting] at hstage
        split at hstage <;> cases hstage
    | dropsLaunching returned counted =>
        rw [returned] at hstage
        cases hstage
    | dropsRegistration returned uncounted =>
        rw [returned] at hstage
        cases hstage
    | dropsSlot deregistered =>
        rw [deregistered] at hstage
        cases hstage
  · exact hframe.keepsWaiting ht (not_and_or.mp hmine) hwaits

/-- In a daemon that is not stopping, every queued job has a place, or is owed one. -/
def PlacesInv (cfg : Config) (root : Root) (d : Daemon) : Prop :=
  d.queue.stopping = false → ∀ a, standing (root.events a) = some .requested →
    d.owes a = some .requeue ∨ d.Placed cfg root a

/-- A place, by the job's view. -/
lemma DaemonInv.placed_iff (inv : DaemonInv cfg root d) : d.Placed cfg root a ↔
    a ∈ d.queue.pending ∨ d.dispatcher = .waiting a ∨ d.dispatcher = .looking a ∨
      d.aboutToEnqueue cfg a ∨ ∃ token m, d.crew a token = some m ∧ m.stage = .waiting := by
  rw [Daemon.Placed, inv.roundToStart_iff]

/-- A step that takes no place from `a`, nor the place `a` is owed. -/
lemma PlacesInv.carry (places : PlacesInv cfg root d) (hon : d.queue.stopping = false)
    (hs : standing (root.events a) = some .requested) (inv : DaemonInv cfg root d)
    (inv' : DaemonInv cfg root' d') (howes : d.owes a = some .requeue → d'.owes a = some .requeue)
    (hpending : a ∈ d.queue.pending → a ∈ d'.queue.pending)
    (hdispatcher : d.dispatcher = .waiting a ∨ d.dispatcher = .looking a →
      d'.dispatcher = d.dispatcher)
    (habout : d.aboutToEnqueue cfg a → d'.aboutToEnqueue cfg a ∨ a ∈ d'.queue.pending)
    (hcrew : (∃ token m, d.crew a token = some m ∧ m.stage = .waiting) →
      ∃ token m, d'.crew a token = some m ∧ m.stage = .waiting) :
    d'.owes a = some .requeue ∨ d'.Placed cfg root' a := by
  rcases places hon a hs with howed | hplaced
  · exact .inl (howes howed)
  right
  rw [inv.placed_iff] at hplaced
  rw [inv'.placed_iff]
  rcases hplaced with hline | hwaiting | hlooking | hsubmit | hround
  · exact .inl (hpending hline)
  · rw [hdispatcher (.inl hwaiting)]
    exact .inr (.inl hwaiting)
  · rw [hdispatcher (.inr hlooking)]
    exact .inr (.inr (.inl hlooking))
  · rcases habout hsubmit with hstill | hline
    · exact .inr (.inr (.inr (.inl hstill)))
    · exact .inl hline
  · exact .inr (.inr (.inr (.inr (hcrew hround))))

/-- Entering a round leaves the waiting rounds there are. -/
lemma DaemonInv.keepsWaiting_add (inv : DaemonInv cfg root d)
    (htasks : d'.tasks = Function.update d.tasks d.nextToken (some t))
    (hwaits : ∃ token m, d.crew a token = some m ∧ m.stage = .waiting) :
    ∃ token m, d'.crew a token = some m ∧ m.stage = .waiting := by
  obtain ⟨token, m, hm, hstage⟩ := hwaits
  obtain ⟨t', ht', rfl, rfl⟩ := Daemon.task_of_crew hm
  refine ⟨token, t'.crewman, Daemon.crew_of_task ?_, hstage⟩
  rw [htasks, Function.update_of_ne (Nat.ne_of_lt (inv.lt_next ht')), ht']

/-- Nor does a change to a task that its job does not see. -/
lemma keepsWaiting_of_crew (hcrew : d'.crew a = d.crew a)
    (hwaits : ∃ token m, d.crew a token = some m ∧ m.stage = .waiting) :
    ∃ token m, d'.crew a token = some m ∧ m.stage = .waiting := by
  rw [hcrew]
  exact hwaits

/-- A step of a round's task takes no queued job's place. -/
lemma PlacesInv.placed_task (places : PlacesInv cfg root d) (inv : DaemonInv cfg root d)
    (inv' : DaemonInv cfg root' d') (ht : d.tasks token = some t)
    (effect : TaskEffect root d token t root' d') (hstopping : d'.queue.stopping = false)
    (hs : standing (root'.events a) = some .requested) :
    d'.owes a = some .requeue ∨ d'.Placed cfg root' a := by
  have hframe := effect.frame
  rw [hframe.stopping] at hstopping
  obtain ⟨hbefore, hwaits⟩ := effect.keepsWaiting inv ht hstopping hs
  refine places.carry hstopping hbefore inv inv' ?_ ?_ (fun _ => hframe.dispatcher) ?_ hwaits
  · intro howes
    rwa [Daemon.owes, hframe.startup]
  · rw [hframe.pending]
    exact fun h => h
  · intro habout
    left
    rwa [Daemon.aboutToEnqueue, hframe.submits]

lemma Daemon.discardsLastPlace_iff (hlooking : d.dispatcher = .looking a) :
    d.discardsLastPlace cfg root = true ↔
      ((root.report a).state = .queued ∧ a ∉ d.queue.pending ∧ ¬ d.aboutToEnqueue cfg a) ∧
        ∃ launched t, d.queue.cancels a = some launched ∧
          launched.round = (root.report a).rounds + 1 ∧ d.tasks launched.cancel = some t ∧
            t.phase.stage = .over := by
  simp only [Daemon.discardsLastPlace, hlooking, Bool.and_eq_true, decide_eq_true_eq,
    Option.any_eq_true]
  refine and_congr_right fun _ => ⟨?_, ?_⟩
  · rintro ⟨launched, hlaunched, hround, t, ht, hover⟩
    exact ⟨launched, t, hlaunched, hround, ht, hover⟩
  · rintro ⟨launched, t, hlaunched, hround, ht, hover⟩
    exact ⟨launched, hlaunched, hround, t, ht, hover⟩

/-- A job the dispatcher passes over is not queued any more, or has another place. -/
lemma DaemonInv.placed_of_skipped (inv : DaemonInv cfg root d) (looking : d.dispatcher = .looking a)
    (why : (root.report a).state = .queued → d.queue.alreadyLaunched a (root.report a) = true)
    (hkeeps : d.discardsLastPlace cfg root = false)
    (hs : standing (root.events a) = some .requested) :
    a ∈ d.queue.pending ∨ d.aboutToEnqueue cfg a ∨
      ∃ token m, d.crew a token = some m ∧ m.stage = .waiting := by
  have hqueued : (root.report a).state = .queued := (queued_iff_of_standing hs).mpr rfl
  obtain ⟨launched, hlaunched, hawaited⟩ := (Option.any_eq_true _ _).mp (why hqueued)
  have hround : launched.round = (root.report a).rounds + 1 := by
    simp only [LaunchedRound.isAwaitedBy, hqueued, decide_eq_true_eq] at hawaited
    exact hawaited.symm
  obtain ⟨m, hm, -, -⟩ := (inv.job a).entered launched hlaunched
  by_cases hover : m.stage = .over
  · by_contra hnone
    simp only [not_or] at hnone
    obtain ⟨t, ht, -, rfl⟩ := Daemon.task_of_crew hm
    have hdiscards := (Daemon.discardsLastPlace_iff looking).mpr
      ⟨⟨hqueued, hnone.1, hnone.2.1⟩, launched, t, hlaunched, hround, ht, hover⟩
    exact absurd (hkeeps.symm.trans hdiscards) (by simp)
  · have hstands := ((inv.job a).atWork launched.cancel m hm hover).1
    have hsame : some Stage.waiting.standing = some m.stage.standing := hs.symm.trans hstands
    exact .inr (.inr ⟨launched.cancel, m, hm,
      (Stage.standing_injective (Option.some.inj hsame)).symm⟩)

/-- A submit's step before its request is recorded takes nobody's place. -/
lemma PlacesInv.placed_setSubmit (places : PlacesInv cfg root d) (inv : DaemonInv cfg root d)
    {key : RepoKey} {submit : Option Submit}
    (inv' : DaemonInv cfg root' (d.setSubmit key submit))
    (hunrecorded : ∀ id, d.submits key ≠ some (.recorded id))
    (hstopping : d.queue.stopping = false) (hevents : root'.events a = root.events a)
    (hs : standing (root'.events a) = some .requested) :
    (d.setSubmit key submit).owes a = some .requeue ∨
    (d.setSubmit key submit).Placed cfg root' a := by
  rw [hevents] at hs
  refine places.carry hstopping hs inv inv' (fun h => h) (fun h => h) (fun _ => rfl) ?_
    (keepsWaiting_of_crew rfl)
  rintro ⟨haddress, hrecorded⟩
  left
  refine ⟨haddress, ?_⟩
  have hkey : a.key ≠ key := by
    rintro rfl
    exact hunrecorded a.id hrecorded
  rw [Daemon.setSubmit_submits, Function.update_of_ne hkey]
  exact hrecorded

/-- A step of the dispatcher, with another job in its hands or none. -/
lemma PlacesInv.placed_dispatched (places : PlacesInv cfg root d) (inv : DaemonInv cfg root d)
    (inv' : DaemonInv cfg root d') (hstopping : d.queue.stopping = false)
    (hs : standing (root.events a) = some .requested)
    (hother : d.dispatcher ≠ .waiting a ∧ d.dispatcher ≠ .looking a)
    (hstartup : d'.startup = d.startup) (hsubmits : d'.submits = d.submits)
    (hpending : a ∈ d.queue.pending → a ∈ d'.queue.pending)
    (hcrew : (∃ token m, d.crew a token = some m ∧ m.stage = .waiting) →
      ∃ token m, d'.crew a token = some m ∧ m.stage = .waiting) :
    d'.owes a = some .requeue ∨ d'.Placed cfg root a := by
  refine places.carry hstopping hs inv inv' ?_ hpending ?_ ?_ hcrew
  · rw [Daemon.owes, Daemon.owes, hstartup]
    exact id
  · rintro (h | h)
    · exact absurd h hother.1
    · exact absurd h hother.2
  · intro habout
    left
    rwa [Daemon.aboutToEnqueue, hsubmits]

/-- A starting daemon gives another job what it is owed. -/
lemma PlacesInv.placed_resumed (places : PlacesInv cfg root d) (inv : DaemonInv cfg root d)
    (inv' : DaemonInv cfg root' d') {r : Resumption} {others : List (JobAddress × Resumption)}
    {requeued : List JobAddress} (startup : d.startup = .resuming ((b, r) :: others) requeued)
    (hne : a ≠ b) (hstopping : d.queue.stopping = false)
    (hs : standing (root.events a) = some .requested)
    (hstartup : d'.startup = .resuming others requeued) (hsubmits : d'.submits = d.submits)
    (hdispatcher : d'.dispatcher = d.dispatcher) (hpending : d'.queue.pending = d.queue.pending)
    (hcrew : (∃ token m, d.crew a token = some m ∧ m.stage = .waiting) →
      ∃ token m, d'.crew a token = some m ∧ m.stage = .waiting) :
    d'.owes a = some .requeue ∨ d'.Placed cfg root' a := by
  refine places.carry hstopping hs inv inv' ?_ ?_ (fun _ => hdispatcher) ?_ hcrew
  · intro howes
    rw [Daemon.owes, startup, ← Startup.owes_tail hne] at howes
    rwa [Daemon.owes, hstartup]
  · rw [hpending]
    exact id
  · intro habout
    left
    rwa [Daemon.aboutToEnqueue, hsubmits]

/-- A queued job is not the one whose round is closed as lost. -/
lemma DaemonInv.ne_of_closesLost (inv : DaemonInv cfg root d) {now : Instant} {round : ℕ}
    {others : List (JobAddress × Resumption)} {requeued : List JobAddress}
    (startup : d.startup = .resuming ((b, .lostWhileLaunching round) :: others) requeued)
    (hs : standing ((root.append b now (.roundFailed (lostWhileLaunching b.id))).events a) =
      some .requested) : a ≠ b := by
  rintro rfl
  obtain ⟨s, hstands⟩ := (inv.job a).stands
  obtain rfl := started_of_owed hstands (inv.owed_of_startup startup)
  have hidle := standing_snoc_failed hstands (by simp) now (lostWhileLaunching a.id)
  rw [Daemon.append_events, if_pos rfl] at hs
  exact absurd (hidle.symm.trans hs) (by simp)

/-- A starting daemon puts a job in line. -/
lemma PlacesInv.placed_requeue (places : PlacesInv cfg root d) (inv : DaemonInv cfg root d)
    {requeued : List JobAddress} (startup : d.startup = .resuming [] (b :: requeued))
    (inv' : DaemonInv cfg root
      { d with queue := d.queue.enqueue b, startup := .resuming [] requeued })
    (hstopping : d.queue.stopping = false) (hs : standing (root.events a) = some .requested) :
    Daemon.owes { d with queue := d.queue.enqueue b, startup := .resuming [] requeued } a =
        some .requeue ∨
      Daemon.Placed { d with queue := d.queue.enqueue b, startup := .resuming [] requeued } cfg
        root a := by
  by_cases ha : a = b
  · exact .inr (.inl (List.mem_append_right _ (List.mem_singleton.mpr ha)))
  · refine places.carry hstopping hs inv inv' ?_ (List.mem_append_left _) (fun _ => rfl)
      (fun h => .inl h) (keepsWaiting_of_crew rfl)
    intro howes
    rw [Daemon.owes, startup, ← Startup.owes_requeued_tail ha] at howes
    exact howes

/-- A submit records a request, and is about to put its job in line. -/
lemma PlacesInv.placed_record (places : PlacesInv cfg root d) (inv : DaemonInv cfg root d)
    {key : RepoKey} {submit : Submit} {id : ℕ} {now : Instant} {kind : EventKind}
    (holds : d.submits key = some submit) (admitted : submit.admitted = some id)
    (inv' : DaemonInv cfg (root.append (cfg.address key id) now kind)
      (d.setSubmit key (some (.recorded id))))
    (hstopping : d.queue.stopping = false)
    (hs : standing ((root.append (cfg.address key id) now kind).events a) = some .requested) :
    (d.setSubmit key (some (.recorded id))).owes a = some .requeue ∨
      (d.setSubmit key (some (.recorded id))).Placed cfg (root.append (cfg.address key id) now kind)
        a := by
  by_cases ha : a = cfg.address key id
  · subst ha
    exact .inr (.inr (.inr (.inr (.inl ⟨rfl, Function.update_self _ _ _⟩))))
  · refine places.placed_setSubmit inv inv' ?_ hstopping ?_ hs
    · intro id' hrecorded
      rw [holds, Option.some.injEq] at hrecorded
      rw [hrecorded] at admitted
      cases admitted
    · rw [Daemon.append_events, if_neg ha]

/-- A submit puts its job in line. -/
lemma PlacesInv.placed_enqueue (places : PlacesInv cfg root d) (inv : DaemonInv cfg root d)
    {key : RepoKey} {id : ℕ} (recorded : d.submits key = some (.recorded id))
    (inv' : DaemonInv cfg root
      { d.setSubmit key none with queue := d.queue.enqueue (cfg.address key id) })
    (hstopping : d.queue.stopping = false) (hs : standing (root.events a) = some .requested) :
    Daemon.owes { d.setSubmit key none with queue := d.queue.enqueue (cfg.address key id) } a =
        some .requeue ∨
      Daemon.Placed { d.setSubmit key none with queue := d.queue.enqueue (cfg.address key id) } cfg
        root a := by
  refine places.carry hstopping hs inv inv' (fun h => h) (List.mem_append_left _) (fun _ => rfl) ?_
    (keepsWaiting_of_crew rfl)
  rintro ⟨haddress, hrecorded⟩
  by_cases hkey : a.key = key
  · right
    rw [hkey, recorded, Option.some.injEq, Submit.recorded.injEq] at hrecorded
    refine List.mem_append_right _ (List.mem_singleton.mpr ?_)
    rw [← haddress, hkey, hrecorded]
  · left
    refine ⟨haddress, ?_⟩
    show Function.update d.submits key none a.key = _
    rw [Function.update_of_ne hkey]
    exact hrecorded

/-- The dispatcher registers a job's round: the job's wait goes on with it. -/
lemma PlacesInv.placed_register (places : PlacesInv cfg root d) (inv : DaemonInv cfg root d)
    (looking : d.dispatcher = .looking b)
    (inv' : DaemonInv cfg root
      { d.addTask (d.queue.register b ((root.report b).rounds + 1) d.nextToken)
          ⟨b, (root.report b).rounds + 1, requestsIn (root.events b), false, .registered⟩ with
        dispatcher := .registered d.nextToken })
    (hstopping : d.queue.stopping = false) (hs : standing (root.events a) = some .requested) :
    Daemon.owes
        { d.addTask (d.queue.register b ((root.report b).rounds + 1) d.nextToken)
            ⟨b, (root.report b).rounds + 1, requestsIn (root.events b), false, .registered⟩ with
          dispatcher := .registered d.nextToken } a = some .requeue ∨
      Daemon.Placed
        { d.addTask (d.queue.register b ((root.report b).rounds + 1) d.nextToken)
            ⟨b, (root.report b).rounds + 1, requestsIn (root.events b), false, .registered⟩ with
          dispatcher := .registered d.nextToken } cfg root a := by
  by_cases ha : a = b
  · subst ha
    right
    rw [inv'.placed_iff]
    refine .inr (.inr (.inr (.inr ⟨d.nextToken, _, Daemon.crew_of_task (t := ⟨a,
      (root.report a).rounds + 1, requestsIn (root.events a), false, .registered⟩) ?_, rfl⟩)))
    exact Function.update_self _ _ _
  · refine places.placed_dispatched inv inv' hstopping hs ?_ rfl rfl (fun h => h)
      (inv.keepsWaiting_add rfl)
    simpa [looking] using Ne.symm ha

/-- The dispatcher passes a job over, which then has another place or is not queued. -/
lemma PlacesInv.placed_skip (places : PlacesInv cfg root d) (inv : DaemonInv cfg root d)
    (looking : d.dispatcher = .looking b)
    (why : (root.report b).state = .queued → d.queue.alreadyLaunched b (root.report b) = true)
    (hkeeps : d.discardsLastPlace cfg root = false)
    (inv' : DaemonInv cfg root { d with dispatcher := .receiving })
    (hstopping : d.queue.stopping = false) (hs : standing (root.events a) = some .requested) :
    Daemon.owes { d with dispatcher := .receiving } a = some .requeue ∨
      Daemon.Placed { d with dispatcher := .receiving } cfg root a := by
  by_cases ha : a = b
  · subst ha
    right
    rw [inv'.placed_iff]
    rcases inv.placed_of_skipped looking why hkeeps hs with hline | habout | hround
    · exact .inl hline
    · exact .inr (.inr (.inr (.inl habout)))
    · exact .inr (.inr (.inr (.inr hround)))
  · refine places.placed_dispatched inv inv' hstopping hs ?_ rfl rfl (fun h => h)
      (keepsWaiting_of_crew rfl)
    simpa [looking] using Ne.symm ha

/-- A step that throws no queued job's last place away leaves every queued job one. -/
theorem PlacesInv.keepsPlaced {act : DaemonAction} (places : PlacesInv cfg root d)
    (inv : DaemonInv cfg root d) (inv' : DaemonInv cfg root' d')
    (effect : DaemonEffect cfg root d act root' d')
    (hkeeps : act = .look → d.queue.stopping = false → d.discardsLastPlace cfg root = false)
    (hstopping : d'.queue.stopping = false) (a : JobAddress)
    (hs : standing (root'.events a) = some .requested) :
    d'.owes a = some .requeue ∨ d'.Placed cfg root' a := by
  cases effect with
  | task token t act root' d' mine effect =>
      exact places.placed_task inv inv' mine effect hstopping hs
  | reattaches now b round handle others requeued startup =>
      have hne : a ≠ b := by
        rintro rfl
        have howed := inv.owed_of_startup startup
        rw [owed_of_standing_requested hs] at howed
        cases howed
      exact places.placed_resumed inv inv' startup hne hstopping hs rfl rfl rfl rfl
        (inv.keepsWaiting_add rfl)
  | closesLost now b round others requeued startup =>
      have hne := inv.ne_of_closesLost startup hs
      rw [Daemon.append_events, if_neg hne] at hs
      exact places.placed_resumed inv inv' startup hne hstopping hs rfl rfl rfl rfl
        (keepsWaiting_of_crew rfl)
  | passesOver now b others requeued startup =>
      exact absurd rfl (inv.others _ _ startup _ List.mem_cons_self)
  | requeues b requeued startup => exact places.placed_requeue inv startup inv' hstopping hs
  | serves startup =>
      refine places.carry hstopping hs inv inv' ?_ (fun h => h) (fun _ => rfl) (fun h => .inl h)
        (keepsWaiting_of_crew rfl)
      intro howes
      rw [Daemon.owes, startup] at howes
      cases howes
  | holds key submission serving free =>
      exact places.placed_setSubmit inv inv' (by simp [free]) hstopping rfl hs
  | continues key submission id provider serving holding idle =>
      exact places.placed_setSubmit inv inv' (by simp [holding]) hstopping rfl hs
  | creates key id submission serving holding new =>
      exact places.placed_setSubmit inv inv' (by simp [holding]) hstopping rfl hs
  | records key now base configured submit id request serving holds admitted =>
      exact places.placed_record inv holds admitted inv' hstopping hs
  | enqueues key id serving recorded => exact places.placed_enqueue inv recorded inv' hstopping hs
  | refuses key submit serving holds unrecorded =>
      refine places.placed_setSubmit inv inv' ?_ hstopping rfl hs
      intro id hrecorded
      rw [holds, Option.some.injEq] at hrecorded
      exact unrecorded id hrecorded
  | closes b now serving queued free =>
      have hne : a ≠ b := by
        rintro rfl
        rw [Daemon.append_events, if_pos rfl,
          standing_snoc_failed (inv.requested_of_queued queued) (by simp)] at hs
        cases hs
      rw [Daemon.append_events, if_neg hne] at hs
      exact places.carry hstopping hs inv inv' (fun h => h) (fun h => h) (fun _ => rfl)
        (fun h => .inl h) (keepsWaiting_of_crew rfl)
  | stopsLaunching serving => cases hstopping
  | receives b pending serving receiving first =>
      by_cases ha : a = b
      · exact .inr (.inr (.inl (by rw [ha])))
      · refine places.placed_dispatched inv inv' hstopping hs (by simp [receiving]) rfl rfl ?_
          (keepsWaiting_of_crew rfl)
        intro hline
        rw [first] at hline
        exact (List.mem_cons.mp hline).resolve_left ha
  | findsSlot b serving waiting free =>
      by_cases ha : a = b
      · exact .inr (.inr (.inr (.inl (by rw [ha]))))
      · refine places.placed_dispatched inv inv' hstopping hs ?_ rfl rfl (fun h => h)
          (keepsWaiting_of_crew rfl)
        simpa [waiting] using Ne.symm ha
  | registers b serving looking queued free =>
      exact places.placed_register inv looking inv' hstopping hs
  | skips b serving looking why =>
      exact places.placed_skip inv looking why (hkeeps rfl hstopping) inv' hstopping hs
  | counts token t serving registered mine =>
      exact places.placed_dispatched inv inv' hstopping hs (by simp [registered]) rfl rfl
        (fun h => h) (keepsWaiting_of_crew (Daemon.crew_update_same
          (Daemon.setTask_tasks d token { t with launching := true }) mine rfl rfl))
  | spawns token t serving counted mine =>
      have hcrewman := Daemon.crewman_of_spawned inv.toTasksInv counted mine
      exact places.placed_dispatched inv inv' hstopping hs (by simp [counted]) rfl rfl
        (fun h => h) (keepsWaiting_of_crew (Daemon.crew_update_same
          (Daemon.setTask_tasks d token { t with phase := .reading }) mine rfl hcrewman))
  | returns serving idle stopping =>
      have hon : d.queue.stopping = false := hstopping
      rw [hon] at stopping
      cases stopping
  | fires b now token serving => exact places hstopping a hs
  | cancelsNothing b now because serving => exact places hstopping a hs

/-- A starting daemon that finds every queued job owes each of them a place in line. -/
lemma PlacesInv.started {walk : List JobAddress} (inv : RootInv root)
    (hwalk : walk.Perm root.jobDirsBelow)
    (finds : root.FindsEvery fun report => report.state = .queued) :
    PlacesInv cfg root (Daemon.started root walk) := by
  intro _ a hs
  left
  have hdir := (inv.mem_of_standing hs (by simp)).1
  exact started_owes_of_standing inv hwalk (finds a hdir ((queued_iff_of_standing hs).mpr rfl)) hs
    (by simp) (owed_of_standing_requested hs)

/-- A daemon that has not served yet knows nothing of a queued job. -/
structure Daemon.Misses (root : Root) (d : Daemon) (a : JobAddress) : Prop where
  queued : standing (root.events a) = some .requested
  unpaid : d.owes a = none
  line : a ∉ d.queue.pending
  dispatcher : d.dispatcher = .receiving
  submits : ∀ key, d.submits key = none
  crew : ∀ token, d.crew a token = none

/-- A starting daemon misses a job that lies below another one's directory. -/
lemma Daemon.Misses.started {walk : List JobAddress} (hwalk : walk.Perm root.jobDirsBelow)
    (hs : standing (root.events a) = some .requested) (hbelow : ¬ root.Outermost a) :
    (Daemon.started root walk).Misses root a where
  queued := hs
  unpaid := started_owes_of_not_outermost hwalk hbelow
  line h := nomatch h
  dispatcher := rfl
  submits _ := rfl
  crew _ := rfl

/-- Whatever it does before it serves, it goes on missing the job. -/
lemma Daemon.Misses.of_effect {act : DaemonAction} (misses : d.Misses root a)
    (inv : DaemonInv cfg root d) (starting : d.isServing = false)
    (effect : DaemonEffect cfg root d act root' d') : d'.Misses root' a := by
  have hserves : d.isServing = true → False := by
    intro h
    rw [starting] at h
    cases h
  obtain ⟨hqueued, hunpaid, hline, hdispatcher, hsubmits, hcrew⟩ := misses
  cases effect with
  | reattaches now b round handle others requeued startup =>
      have hne : a ≠ b := by
        rintro rfl
        rw [Daemon.owes, startup, (Startup.owes_head (inv.once _ _ startup)).1] at hunpaid
        cases hunpaid
      refine ⟨hqueued, ?_, hline, hdispatcher, hsubmits, ?_⟩
      · rwa [Daemon.owes, startup, ← Startup.owes_tail hne] at hunpaid
      · intro token
        refine Eq.trans ?_ (hcrew token)
        exact congrFun (inv.crew_of_added (t := ⟨b, round, requestsIn (root.events b), false,
          .reattaching handle⟩) rfl (Ne.symm hne)) token
  | closesLost now b round others requeued startup =>
      have hne : a ≠ b := by
        rintro rfl
        rw [Daemon.owes, startup, (Startup.owes_head (inv.once _ _ startup)).1] at hunpaid
        cases hunpaid
      refine ⟨?_, ?_, hline, hdispatcher, hsubmits, hcrew⟩
      · rw [Daemon.append_events, if_neg hne]
        exact hqueued
      · rwa [Daemon.owes, startup, ← Startup.owes_tail hne] at hunpaid
  | passesOver now b others requeued startup =>
      exact absurd rfl (inv.others _ _ startup _ List.mem_cons_self)
  | requeues b requeued startup =>
      have hne : a ≠ b := by
        rintro rfl
        rw [Daemon.owes, startup, (Startup.owes_requeued (inv.once _ _ startup)).1] at hunpaid
        cases hunpaid
      refine ⟨hqueued, ?_, ?_, hdispatcher, hsubmits, hcrew⟩
      · rwa [Daemon.owes, startup, ← Startup.owes_requeued_tail hne] at hunpaid
      · intro hmem
        rcases List.mem_append.mp hmem with h | h
        · exact hline h
        · exact hne (List.mem_singleton.mp h)
  | serves startup => exact ⟨hqueued, rfl, hline, hdispatcher, hsubmits, hcrew⟩
  | task token t act root' d' mine effect =>
      have hframe := effect.frame
      have hother : a ≠ t.address := by
        rintro rfl
        have hmine := hcrew token
        rw [Daemon.crew_of_task mine] at hmine
        cases hmine
      obtain ⟨changed, htasks, hchanged⟩ := hframe.task
      refine ⟨?_, ?_, ?_, hframe.dispatcher.trans hdispatcher, ?_, ?_⟩
      · rw [hframe.events a hother]
        exact hqueued
      · rwa [Daemon.owes, hframe.startup]
      · rwa [hframe.pending]
      · rwa [hframe.submits]
      · intro token'
        by_contra hsome
        obtain ⟨m, hm⟩ := Option.ne_none_iff_exists'.mp hsome
        obtain ⟨t', ht', rfl, rfl⟩ := Daemon.task_of_crew hm
        rw [htasks] at ht'
        rcases entry_of_update ht' with ⟨-, hnew⟩ | ⟨-, hold⟩
        · exact hother (hchanged t' hnew).1
        · have hmine := hcrew token'
          rw [Daemon.crew_of_task hold] at hmine
          cases hmine
  | _ => exact (hserves ‹_›).elim

/-- A job its daemon misses has no place. -/
lemma Daemon.Misses.stranded (misses : d.Misses root a) (inv : DaemonInv cfg root d) :
    (root.report a).state = .queued ∧ ¬ d.Placed cfg root a := by
  refine ⟨(queued_iff_of_standing misses.queued).mpr rfl, ?_⟩
  rw [inv.placed_iff, misses.dispatcher]
  rintro (h | h | h | ⟨-, h⟩ | ⟨token, m, hm, -⟩)
  · exact misses.line h
  · cases h
  · cases h
  · rw [misses.submits] at h
    cases h
  · rw [misses.crew] at hm
    cases hm

end Steps

/-! ## Runs -/

section Runs

variable {cfg : Config} {w : World} {d : Daemon}

/-- What is thrown away is the job's last place. -/
lemma DaemonInv.stranded_of_discard {root : Root} {a : JobAddress} (inv : DaemonInv cfg root d)
    (hlooking : d.dispatcher = .looking a) (hdiscards : d.discardsLastPlace cfg root = true)
    {s : Root × Daemon} (h : Daemon.step cfg (root, d) .look = some s) :
    (s.1.report a).state = .queued ∧ ¬ s.2.Placed cfg s.1 a := by
  obtain ⟨⟨hqueued, hline, habout⟩, launched, t, hlaunched, hround, ht, hover⟩ :=
    (Daemon.discardsLastPlace_iff hlooking).mp hdiscards
  have hstands := inv.requested_of_queued hqueued
  obtain ⟨root', d'⟩ := s
  have inv' := inv.step h
  cases DaemonEffect.of_step h with
  | registers b serving looking queued free =>
      rw [hlooking] at looking
      obtain rfl := Dispatcher.looking.inj looking
      exact absurd hround (free_of_alreadyLaunched queued free launched hlaunched)
  | skips b serving looking why =>
      refine ⟨hqueued, ?_⟩
      dsimp only
      rw [inv'.placed_iff]
      rintro (h | h | h | h | ⟨token, m, hm, hstage⟩)
      · exact hline h
      · cases h
      · cases h
      · exact habout h
      · -- A waiting round would be the one entered, and that one is over.
        obtain ⟨-, -, -, -, hentry⟩ := (inv.job a).atWork token m hm (by simp [hstage])
        have hsame : some launched = some ⟨m.round, token⟩ := hlaunched.symm.trans hentry
        obtain rfl := Option.some.inj hsame
        obtain ⟨t', ht', -, rfl⟩ := Daemon.task_of_crew hm
        obtain rfl : t = t' := Option.some.inj (ht.symm.trans ht')
        have hwaits : t.phase.stage = .waiting := hstage
        rw [hwaits] at hover
        cases hover

/-- Where no place is thrown away, and starts find every queued job, every queued job has a place,
or is owed one. -/
lemma placesInv_of_reachable
    (reached : Reachable (World.step cfg) (KeepsPlaces cfg) (fun w => w = .fresh) w)
    (hd : w.daemon = some d) : PlacesInv cfg w.root d := by
  refine World.daemon_invariant (I := PlacesInv cfg) reached ?_ ?_ d hd
  · intro root walk hroot hwalk hallowed
    exact .started hroot hwalk hallowed
  · intro root d act root' d' inv places hallowed effect
    refine places.keepsPlaced inv (effect.keeps inv) effect ?_
    rintro rfl hon
    exact hallowed d rfl hon

/-- What a start does not find it strands, until the daemon serves and when it begins to. -/
lemma RootInv.stranded_of_start {root : Root} {a : JobAddress} {walk : List JobAddress}
    (inv : RootInv root) (hwalk : walk.Perm root.jobDirsBelow)
    (hqueued : (root.report a).state = .queued) (hbelow : ¬ root.Outermost a)
    {h : List DaemonAction} {s : Root × Daemon}
    (run : Run (Daemon.step cfg) (fun s _ => s.2.isServing = false) actionsShown
      (root, .started root walk) h s) :
    (s.1.report a).state = .queued ∧ ¬ s.2.Placed cfg s.1 a := by
  have hstarted := DaemonInv.started cfg inv hwalk
  have hmisses : DaemonInv cfg s.1 s.2 ∧ s.2.Misses s.1 a := by
    refine run.invariant (I := fun s => DaemonInv cfg s.1 s.2 ∧ s.2.Misses s.1 a) ?_
      ⟨hstarted, .started hwalk (hstarted.requested_of_queued hqueued) hbelow⟩
    rintro s act s' ⟨inv, misses⟩ starting hstep
    exact ⟨inv.step hstep, misses.of_effect inv starting (DaemonEffect.of_step hstep)⟩
  exact hmisses.2.stranded hmisses.1

/-- **No queued job is stranded, unless its last place in line is thrown away for a round that is
over, or a start does not find it.**  In every run whose steps throw no such place away and whose
starts find every queued job, whatever else submits, cancels, the dispatcher, the rounds' tasks and
kills do, every queued job of a daemon that has not been told to stop has something still to bring
it to its round.  A step that does throw one away strands its job, and so does a daemon that starts
where a queued job lies below another one's directory. -/
theorem queued_jobs_placed
    (reached : Reachable (World.step cfg) (KeepsPlaces cfg) (fun w => w = .fresh) w)
    (hd : w.daemon = some d) (hserving : d.isServing = true) (hon : d.queue.stopping = false) :
    (∀ a, (w.root.report a).state = .queued → d.Placed cfg w.root a) ∧
      (∀ a s, d.dispatcher = .looking a → d.discardsLastPlace cfg w.root = true →
        Daemon.step cfg (w.root, d) .look = some s →
          (s.1.report a).state = .queued ∧ ¬ s.2.Placed cfg s.1 a) ∧
      ∀ a walk h s, (w.root.report a).state = .queued → ¬ w.root.Outermost a →
        walk.Perm w.root.jobDirsBelow →
          Run (Daemon.step cfg) (fun s _ => s.2.isServing = false) actionsShown
            (w.root, .started w.root walk) h s →
              (s.1.report a).state = .queued ∧ ¬ s.2.Placed cfg s.1 a := by
  have hworld := WorldInv.of_reachable reached
  have inv := hworld.daemon d hd
  have places := placesInv_of_reachable reached hd
  refine ⟨?_, fun a s hlooking hdiscards hstep => inv.stranded_of_discard hlooking hdiscards hstep,
    fun a walk h s hqueued hbelow hwalk run =>
      hworld.root.stranded_of_start hwalk hqueued hbelow run⟩
  intro a hqueued
  have hpaid := Daemon.owes_of_serving (a := a) hserving
  rcases places hon a (inv.requested_of_queued hqueued) with howes | hplaced
  · rw [hpaid] at howes
    cases howes
  · exact hplaced

/-- The same root with a cap of two. -/
def pairConfig : Config := ⟨[], 2⟩

/-- A job's first round is cancelled before it starts, and the job revised before that round's
entry is taken out of the cancel table. -/
def revisedAtOnce : List DaemonAction :=
  .serve :: (submitting 1 0 ++ dispatching 0 ++
    [.cancel jobAddress 1, .task 0 .seeCancelled, .task 0 (.append 2)] ++ revising 1 3)

/-- **The revised job is stranded**: its place in line is thrown away for the cancelled round, and
nothing will bring it to a round of its own. -/
theorem revised_job_stranded : ∃ w d,
    Reachable (World.step pairConfig) anyAction (fun w => w = .fresh) w ∧ w.daemon = some d ∧
      d.isServing = true ∧ d.queue.stopping = false ∧
        (w.root.report jobAddress).state = .queued ∧ ¬ d.Placed pairConfig w.root jobAddress := by
  have hdone : ((exec (World.step pairConfig) .fresh
      (daemonRunning (revisedAtOnce ++ [.receive, .slotFree, .look]))).bind fun w =>
        w.daemon.map fun d => (d.isServing, d.queue.stopping, (w.root.report jobAddress).state,
          decide (d.Placed pairConfig w.root jobAddress))) =
            some (true, false, .queued, false) := by decide +kernel
  obtain ⟨w, hw, hd⟩ := Option.bind_eq_some_iff.mp hdone
  obtain ⟨d, hd, hall⟩ := Option.map_eq_some_iff.mp hd
  simp only [Prod.mk.injEq, decide_eq_false_iff_not] at hall
  obtain ⟨hserving, hon, hqueued, hstranded⟩ := hall
  exact ⟨w, d, .of_exec rfl hw, hd, hserving, hon, hqueued, hstranded⟩

/-- The entry taken out in time, the revised job is launched. -/
theorem queued_jobs_placed_revised : ∃ w d,
    exec (fun w act => if KeepsPlaces pairConfig w act then World.step pairConfig w act else none)
      .fresh (daemonRunning (revisedAtOnce ++ [.task 0 .dropLaunching, .task 0 .dropRegistration,
        .receive, .slotFree, .look])) = some w ∧ w.daemon = some d ∧
      (w.root.report jobAddress).state = .queued ∧ d.Placed pairConfig w.root jobAddress := by
  have hdone : ((exec (fun w act => if KeepsPlaces pairConfig w act then
      World.step pairConfig w act else none) .fresh (daemonRunning (revisedAtOnce ++
        [.task 0 .dropLaunching, .task 0 .dropRegistration, .receive, .slotFree,
          .look]))).bind fun w =>
        w.daemon.map fun d => (d.isServing, d.queue.stopping, (w.root.report jobAddress).state)) =
          some (true, false, .queued) := by decide +kernel
  obtain ⟨w, hw, hd⟩ := Option.bind_eq_some_iff.mp hdone
  obtain ⟨d, hd, hall⟩ := Option.map_eq_some_iff.mp hd
  simp only [Prod.mk.injEq] at hall
  obtain ⟨hserving, hon, hqueued⟩ := hall
  obtain ⟨hplaced, -, -⟩ := queued_jobs_placed (.of_guarded_exec rfl hw) hd hserving hon
  exact ⟨w, d, hw, hd, hqueued, hplaced jobAddress hqueued⟩

end Runs

end AssemblyLine
