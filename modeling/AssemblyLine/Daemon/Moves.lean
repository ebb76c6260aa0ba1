import AssemblyLine.Daemon.Effects
import AssemblyLine.Daemon.JobView
import AssemblyLine.Framework.Tally

/-!
# A daemon's steps, job by job

`Daemon.view` is the `JobView` of one job of a root and a daemon.  `Daemon.step_moves` says that
every step of a daemon is to every job one of the moves of `JobMove`, so what those keep, every
interleaving of the daemon's parties keeps (`DaemonInv.step`).
-/

namespace AssemblyLine

/-! ## The view of a job -/

/-- What of a round's task concerns its job. -/
def RoundTask.crewman (t : RoundTask) : Crewman :=
  ⟨t.round, t.asked, t.phase.stage, t.phase.isRegistered⟩

/-- What is left to give a job. -/
def Startup.owes (startup : Startup) (a : JobAddress) : Option Resumption :=
  match startup with
  | .serving => none
  | .resuming others requeued =>
    ((others.find? fun job => job.1 = a).map Prod.snd).or
      (if a ∈ requeued then some .requeue else none)

namespace Daemon

/-- A job's registered rounds. -/
def crew (d : Daemon) (a : JobAddress) : Token → Option Crewman := fun token =>
  (d.tasks token).bind fun t => if t.address = a then some t.crewman else none

/-- Whether a submit is about to record a request for a job. -/
def admits (cfg : Config) (d : Daemon) (a : JobAddress) : Bool :=
  ((d.submits a.key).bind Submit.admitted).any fun id => cfg.address a.key id = a

/-- What a starting daemon has yet to give a job. -/
def owes (d : Daemon) (a : JobAddress) : Option Resumption := d.startup.owes a

/-- What of a root and a daemon concerns one job. -/
def view (cfg : Config) (root : Root) (d : Daemon) (a : JobAddress) : JobView where
  events := root.events a
  crew := d.crew a
  entry := d.queue.cancels a
  submitting := d.admits cfg a
  owed := d.owes a

end Daemon

/-- The round in the dispatcher's hands: registered, and not spawned. -/
def Dispatcher.hand : Dispatcher → Option Token
  | .registered token => some token
  | .counted token => some token
  | .receiving => none
  | .waiting _ => none
  | .looking _ => none
  | .returned => none

/-- What always holds of a daemon's tasks. -/
structure TasksInv (d : Daemon) : Prop where
  fresh : ∀ token, d.nextToken ≤ token → d.tasks token = none
  /-- A round that is registered and not spawned is the one in the dispatcher's hands. -/
  inHand : ∀ token t, d.tasks token = some t → t.phase = .registered →
    d.dispatcher.hand = some token
  hand : ∀ token, d.dispatcher.hand = some token → ∃ t, d.tasks token = some t ∧
    t.phase = .registered
  /-- A round that records a failure has one to record. -/
  failing : ∀ token t stage reason, d.tasks token = some t → t.phase = .failing stage reason →
    stage ≠ .over

/-- What always holds of a daemon and its root. -/
structure DaemonInv (cfg : Config) (root : Root) (d : Daemon) : Prop extends TasksInv d where
  job : ∀ a, JobInv a.id (d.view cfg root a)
  /-- A job that has no directory has no log. -/
  absent : ∀ a, a ∉ root.jobDirs → root.events a = []
  tasked : ∀ token t, d.tasks token = some t → t.address ∈ root.jobDirs
  submitted : ∀ key submit id, d.submits key = some submit → submit.admitted = some id →
    cfg.address key id ∈ root.jobDirs
  /-- Each job is owed one thing. -/
  once : ∀ others requeued, d.startup = .resuming others requeued →
    (others.map Prod.fst ++ requeued).Nodup
  /-- What is owed a place in line is given it after everything else. -/
  others : ∀ others requeued, d.startup = .resuming others requeued → ∀ job ∈ others,
    job.2 ≠ .requeue

/-! ## What a change to a task is to its job -/

namespace Daemon

lemma setTask_tasks (d : Daemon) (token : Token) (t : RoundTask) :
    (d.setTask token t).tasks = Function.update d.tasks token (some t) := rfl

variable {cfg : Config} {root root' : Root} {d d' : Daemon} {a : JobAddress} {token : Token}
  {t t' : RoundTask}

lemma crew_of_task (h : d.tasks token = some t) : d.crew t.address token = some t.crewman := by
  simp [crew, h]

/-- A job does not see that its round's task is spawned. -/
lemma crewman_of_spawned (inv : TasksInv d) (counted : d.dispatcher = .counted token)
    (mine : d.tasks token = some t) :
    ({ t with phase := .reading } : RoundTask).crewman = t.crewman := by
  obtain ⟨t', ht', hphase⟩ := inv.hand token (by rw [counted]; rfl)
  obtain rfl : t' = t := Option.some.inj (ht'.symm.trans mine)
  simp only [RoundTask.crewman, hphase]
  rfl

lemma task_of_crew {m : Crewman} (h : d.crew a token = some m) :
    ∃ t, d.tasks token = some t ∧ t.address = a ∧ t.crewman = m := by
  obtain ⟨t, ht, hcrew⟩ := Option.bind_eq_some_iff.mp h
  simp only [Option.ite_none_right_eq_some, Option.some.injEq] at hcrew
  exact ⟨t, ht, hcrew.1, hcrew.2⟩

/-- What a task entered at a token is to each job. -/
lemma crew_update (htasks : d'.tasks = Function.update d.tasks token (some t'))
    (hsame : ∀ t, d.tasks token = some t → t.address = t'.address) :
    d'.crew a =
      if t'.address = a then Function.update (d.crew a) token (some t'.crewman) else d.crew a := by
  funext token'
  by_cases htoken : token' = token
  · subst htoken
    by_cases ha : t'.address = a
    · simp [crew, htasks, ha]
    · rw [if_neg ha]
      simp only [crew, htasks, Function.update_self, Option.bind_some, if_neg ha]
      cases hold : d.tasks token' with
      | none => rfl
      | some t => simp [hsame t hold, ha]
  · by_cases ha : t'.address = a <;> simp [crew, htasks, ha, htoken]

/-- A task that its job sees no change in. -/
lemma crew_update_same (htasks : d'.tasks = Function.update d.tasks token (some t'))
    (ht : d.tasks token = some t) (haddress : t'.address = t.address)
    (hcrewman : t'.crewman = t.crewman) : d'.crew a = d.crew a := by
  rw [crew_update htasks fun t₁ h₁ => by rw [haddress, Option.some.inj (ht.symm.trans h₁)]]
  split
  · rename_i ha
    funext token'
    by_cases htoken : token' = token
    · subst htoken
      rw [Function.update_self, ← ha, haddress, crew_of_task ht, hcrewman]
    · rw [Function.update_of_ne htoken]
  · rfl

/-- A job whose part in a step is none sees nothing of it. -/
lemma view_congr (hevents : root'.events a = root.events a) (hcrew : d'.crew a = d.crew a)
    (hentry : d'.queue.cancels a = d.queue.cancels a) (hsubmits : d'.submits = d.submits)
    (hstartup : d'.startup = d.startup) : d'.view cfg root' a = d.view cfg root a := by
  simp only [view, hevents, hcrew, hentry, admits, hsubmits, owes, hstartup]

lemma owes_of_serving (h : d.isServing = true) : d.owes a = none := by
  unfold isServing at h
  split at h
  · rename_i hserving
    rw [owes, hserving]
    rfl
  · simp at h

lemma crew_congr (htasks : d'.tasks = d.tasks) (a : JobAddress) : d'.crew a = d.crew a := by
  funext token
  simp only [crew, htasks]

lemma append_events (root : Root) (b : JobAddress) (now : Instant) (kind : EventKind) :
    (root.append b now kind).events a =
      if a = b then root.events a ++ [⟨now, kind⟩] else root.events a := by
  by_cases h : a = b
  · subst h
    simp [Root.append]
  · simp [Root.append, h]

/-! ### Moves of a round's task -/

/-- A step of a task its job sees nothing of. -/
lemma quiet_of_task (htasks : d'.tasks = Function.update d.tasks token (some t'))
    (ht : d.tasks token = some t) (haddress : t'.address = t.address)
    (hcrewman : t'.crewman = t.crewman) (hentries : d'.queue.cancels = d.queue.cancels)
    (hsubmits : d'.submits = d.submits) (hstartup : d'.startup = d.startup) :
    JobMove a.id (d.view cfg root a) (d'.view cfg root a) := by
  rw [view_congr rfl (crew_update_same htasks ht haddress hcrewman) (by rw [hentries]) hsubmits
    hstartup]
  exact .quiet

/-- What a step of a task is to its own job. -/
lemma view_of_task_self (htasks : d'.tasks = Function.update d.tasks token (some t'))
    (ht : d.tasks token = some t) (haddress : t'.address = t.address)
    (hsubmits : d'.submits = d.submits) (hstartup : d'.startup = d.startup) :
    d'.view cfg root' t.address =
      { (d.view cfg root t.address).setCrew token t'.crewman with
        events := root'.events t.address, entry := d'.queue.cancels t.address } := by
  have hcrew : d'.crew t.address = Function.update (d.crew t.address) token (some t'.crewman) := by
    rw [crew_update htasks fun t₁ h₁ => by rw [haddress, Option.some.inj (ht.symm.trans h₁)],
      if_pos haddress]
  simp only [view, JobView.setCrew, hcrew, admits, owes, hsubmits, hstartup]

/-- To every other job it is nothing. -/
lemma view_of_task_other (htasks : d'.tasks = Function.update d.tasks token (some t'))
    (ht : d.tasks token = some t) (haddress : t'.address = t.address) (ha : a ≠ t.address)
    (hevents : root'.events a = root.events a) (hentry : d'.queue.cancels a = d.queue.cancels a)
    (hsubmits : d'.submits = d.submits) (hstartup : d'.startup = d.startup) :
    d'.view cfg root' a = d.view cfg root a := by
  refine view_congr hevents ?_ hentry hsubmits hstartup
  rw [crew_update htasks fun t₁ h₁ => by rw [haddress, Option.some.inj (ht.symm.trans h₁)],
    if_neg (by rw [haddress]; exact Ne.symm ha)]

/-- A round's due event is the next letter of its job's lifecycle. -/
lemma advance_of_due (hfailing : ∀ stage reason, t.phase = .failing stage reason → stage ≠ .over)
    {due : EventKind × RoundPhase} (hdue : t.phase.due t.round = some due) (now : Instant) :
    t.phase.stage ≠ .over ∧ due.1.lifecycle ≠ none ∧
      t.phase.stage.standing.afterEvent ⟨now, due.1⟩ = some due.2.stage.standing ∧
      (∀ round, due.1 = .roundStarted round → round = t.round) ∧
      due.2.isRegistered = t.phase.isRegistered := by
  cases hphase : t.phase with
  | starting request config =>
      cases config <;> simp [hphase, RoundPhase.due] at hdue <;> subst hdue <;>
        simp [RoundPhase.stage, EventKind.lifecycle, Standing.afterEvent, Standing.after,
          Stage.standing, RoundPhase.isRegistered]
  | recording handle stream =>
      simp [hphase, RoundPhase.due] at hdue
      subst hdue
      simp [RoundPhase.stage, EventKind.lifecycle, Standing.afterEvent, Standing.after,
        Stage.standing, RoundPhase.isRegistered]
  | failing stage reason =>
      have hstage := hfailing stage reason hphase
      simp [hphase, RoundPhase.due] at hdue
      subst hdue
      cases stage <;>
        simp_all [RoundPhase.stage, EventKind.lifecycle, Standing.afterEvent, Standing.after,
          Stage.standing, RoundPhase.isRegistered]
  | registered => simp [hphase, RoundPhase.due] at hdue
  | reading => simp [hphase, RoundPhase.due] at hdue
  | configuring request => simp [hphase, RoundPhase.due] at hdue
  | launching request => simp [hphase, RoundPhase.due] at hdue
  | reattaching handle => simp [hphase, RoundPhase.due] at hdue
  | opening stream => simp [hphase, RoundPhase.due] at hdue
  | collecting c => simp [hphase, RoundPhase.due] at hdue
  | returned => simp [hphase, RoundPhase.due] at hdue
  | deregistered => simp [hphase, RoundPhase.due] at hdue

/-- Appending a due event advances the round. -/
lemma append_moves (inv : DaemonInv cfg root d) (ht : d.tasks token = some t)
    {due : EventKind × RoundPhase} (hdue : t.phase.due t.round = some due) (now : Instant) :
    JobMove a.id (d.view cfg root a)
      ((d.setTask token { t with phase := due.2 }).view cfg
        (root.append t.address now due.1) a) := by
  obtain ⟨hworking, hletter, hlegal, hnumbered, hregistered⟩ :=
    advance_of_due (inv.failing token t · · ht) hdue now
  by_cases ha : a = t.address
  · subst ha
    have hcrewman : ({ t with phase := due.2 } : RoundTask).crewman =
        { t.crewman with stage := due.2.stage } := by
      simp [RoundTask.crewman, hregistered]
    rw [view_of_task_self (setTask_tasks d token { t with phase := due.2 }) ht rfl rfl rfl,
      hcrewman, append_events, if_pos rfl]
    exact .advance token t.crewman due.2.stage ⟨now, due.1⟩ (crew_of_task ht) hworking hletter
      hlegal hnumbered
  · have hother : (root.append t.address now due.1).events a = root.events a := by
      rw [append_events, if_neg ha]
    rw [view_of_task_other (setTask_tasks d token { t with phase := due.2 })
      ht rfl ha hother rfl rfl
      rfl]
    exact .quiet

lemma writeRound_events (root : Root) (b : JobAddress) (round : ℕ) (disk : RoundDisk) :
    (root.writeRound b round disk).events a = if a = b then disk.events else root.events a := by
  by_cases h : a = b
  · subst h
    simp [Root.writeRound]
  · simp [Root.writeRound, h]

lemma stage_collecting (c : RoundCollection) :
    (RoundPhase.collecting c).stage = if c.judged then .over else .launched := rfl

/-- One effect of a collection is to its job nothing, a report of progress or the verdict. -/
lemma collect_moves (ht : d.tasks token = some t) {c c' : RoundCollection} {disk : RoundDisk}
    (hphase : t.phase = .collecting c)
    (hnext : c.next (root.roundDisk t.address t.round) = some (c', disk)) :
    JobMove a.id (d.view cfg root a)
      ((d.setTask token { t with phase := .collecting c' }).view cfg
        (root.writeRound t.address t.round disk) a) := by
  by_cases ha : a = t.address
  · subst ha
    rw [view_of_task_self (setTask_tasks d token { t with phase := .collecting c' }) ht rfl rfl rfl,
      writeRound_events, if_pos rfl]
    have hsame : c'.judged = c.judged →
        ({ t with phase := .collecting c' } : RoundTask).crewman = t.crewman := by
      intro hjudged
      simp [RoundTask.crewman, hphase, stage_collecting, hjudged, RoundPhase.isRegistered]
    have hput : (d.view cfg root t.address).setCrew token t.crewman =
        d.view cfg root t.address := by
      have hcrew : Function.update (d.crew t.address) token (some t.crewman) =
          d.crew t.address := by
        rw [← crew_of_task ht, Function.update_eq_self]
      simp only [JobView.setCrew, view, hcrew]
    cases RoundCollection.logEffect_of_next hnext with
    | none same judged =>
        rw [hsame judged, hput, same]
        exact .quiet
    | progress e appended reports judged =>
        rw [hsame judged, hput, appended]
        exact .progress e reports
    | verdict e appended isVerdict unjudged judged =>
        have hcrewman : ({ t with phase := .collecting c' } : RoundTask).crewman =
            { t.crewman with stage := .over } := by
          simp [RoundTask.crewman, hphase, stage_collecting, judged, RoundPhase.isRegistered]
        have hlaunched : t.crewman.stage = .launched := by
          simp [RoundTask.crewman, hphase, stage_collecting, unjudged]
        rw [hcrewman, appended]
        obtain ⟨stamp, kind⟩ := e
        refine .advance token t.crewman .over ⟨stamp, kind⟩ (crew_of_task ht)
          (by simp [hlaunched]) ?_
          ?_ ?_
        · cases kind <;> simp [Event.isVerdict, EventKind.verdict] at isVerdict <;>
            simp [EventKind.lifecycle]
        · rw [hlaunched]
          cases kind <;> simp [Event.isVerdict, EventKind.verdict] at isVerdict <;> rfl
        · rintro round rfl
          simp [Event.isVerdict, EventKind.verdict] at isVerdict
  · have hother : (root.writeRound t.address t.round disk).events a = root.events a := by
      rw [writeRound_events, if_neg ha]
    rw [view_of_task_other (setTask_tasks d token { t with phase := .collecting c' })
      ht rfl ha hother
      rfl rfl rfl]
    exact .quiet

/-- A round that gives up before it starts leaves its job queued. -/
lemma abandon_moves (ht : d.tasks token = some t) (hstage : t.phase.stage = .waiting)
    (hregistered : t.phase.isRegistered = true) :
    JobMove a.id (d.view cfg root a)
      ((d.setTask token { t with phase := .returned }).view cfg root a) := by
  by_cases ha : a = t.address
  · subst ha
    have hcrewman : ({ t with phase := .returned } : RoundTask).crewman =
        { t.crewman with stage := .over } := by
      simp only [RoundTask.crewman, hregistered]
      rfl
    rw [view_of_task_self (setTask_tasks d token { t with phase := .returned }) ht rfl rfl rfl,
      hcrewman]
    exact .abandon token t.crewman (crew_of_task ht) hstage
  · rw [view_of_task_other (setTask_tasks d token { t with phase := .returned }) ht rfl ha rfl rfl
      rfl rfl]
    exact .quiet

lemma deregister_cancels (queue : JobQueue) (b : JobAddress) (round : ℕ) :
    (queue.deregister b round).cancels a =
      if a = b then
        if (queue.cancels a).any fun launched => launched.round = round then none
        else queue.cancels a
      else queue.cancels a := by
  unfold JobQueue.deregister
  by_cases ha : a = b
  · subst ha
    by_cases hany : (queue.cancels a).any fun launched => launched.round = round
    · rw [if_pos hany, if_pos rfl, if_pos hany]
      exact Function.update_self _ _ _
    · rw [if_neg hany, if_pos rfl, if_neg hany]
  · rw [if_neg ha]
    split
    · exact Function.update_of_ne ha _ _
    · rfl

lemma dropRegistration_moves (ht : d.tasks token = some t) (hphase : t.phase = .returned)
    (htasks : d'.tasks = Function.update d.tasks token (some { t with phase := .deregistered }))
    (hqueue : d'.queue = d.queue.deregister t.address t.round) (hsubmits : d'.submits = d.submits)
    (hstartup : d'.startup = d.startup) :
    JobMove a.id (d.view cfg root a) (d'.view cfg root a) := by
  by_cases ha : a = t.address
  · subst ha
    have hcrewman : ({ t with phase := .deregistered } : RoundTask).crewman =
        { t.crewman with registered := false } := by
      simp only [RoundTask.crewman, hphase, RoundPhase.stage]
      rfl
    have hentry : d'.queue.cancels t.address =
        if (d.queue.cancels t.address).any fun launched => launched.round = t.crewman.round
        then none else d.queue.cancels t.address := by
      rw [hqueue, deregister_cancels, if_pos rfl]
      rfl
    rw [view_of_task_self htasks ht rfl hsubmits hstartup, hcrewman, hentry]
    refine .dropRegistration token t.crewman (crew_of_task ht) ?_ ?_
    · simp [RoundTask.crewman, hphase, RoundPhase.stage]
    · simp [RoundTask.crewman, hphase, RoundPhase.isRegistered]
  · have hentry : d'.queue.cancels a = d.queue.cancels a := by
      rw [hqueue, deregister_cancels, if_neg ha]
    rw [view_of_task_other htasks ht rfl ha rfl hentry hsubmits hstartup]
    exact .quiet

lemma dropSlot_moves (ht : d.tasks token = some t) (hphase : t.phase = .deregistered)
    (htasks : d'.tasks = Function.update d.tasks token none)
    (hentries : d'.queue.cancels = d.queue.cancels) (hsubmits : d'.submits = d.submits)
    (hstartup : d'.startup = d.startup) :
    JobMove a.id (d.view cfg root a) (d'.view cfg root a) := by
  by_cases ha : a = t.address
  · subst ha
    have hcrew : d'.crew t.address = Function.update (d.crew t.address) token none := by
      funext token'
      by_cases htoken : token' = token <;> simp [crew, htasks, htoken]
    have hview : d'.view cfg root t.address =
        { d.view cfg root t.address with
          crew := Function.update (d.view cfg root t.address).crew token none } := by
      simp only [view, hcrew, hentries, admits, owes, hsubmits, hstartup]
    rw [hview]
    refine .dropSlot token t.crewman (crew_of_task ht) ?_ ?_
    · simp [RoundTask.crewman, hphase, RoundPhase.isRegistered]
    · simp [RoundTask.crewman, hphase, RoundPhase.stage]
  · have hcrew : d'.crew a = d.crew a := by
      funext token'
      by_cases htoken : token' = token
      · subst htoken
        simp [crew, htasks, ht, Ne.symm ha]
      · simp [crew, htasks, htoken]
    rw [view_congr rfl hcrew (by rw [hentries]) hsubmits hstartup]
    exact .quiet

/-! ### What is still owed -/

end Daemon

namespace Startup

variable {a b : JobAddress} {r : Resumption} {others : List (JobAddress × Resumption)}
  {requeued : List JobAddress}

/-- What the first of the jobs not requeued is owed, and that it is owed nothing then. -/
lemma owes_head (honce : (((b, r) :: others).map Prod.fst ++ requeued).Nodup) :
    (resuming ((b, r) :: others) requeued).owes b = some r ∧
      (resuming others requeued).owes b = none := by
  simp only [List.map_cons, List.cons_append, List.nodup_cons, List.mem_append, not_or] at honce
  obtain ⟨⟨hothers, hrequeued⟩, -⟩ := honce
  have hnone : others.find? (fun job => job.1 = b) = none := by
    rw [List.find?_eq_none]
    intro job hjob hb
    exact hothers (List.mem_map.mpr ⟨job, hjob, by simpa using hb⟩)
  exact ⟨by simp [owes], by simp [owes, hnone, hrequeued]⟩

lemma owes_tail (ha : a ≠ b) :
    (resuming others requeued).owes a = (resuming ((b, r) :: others) requeued).owes a := by
  simp [owes, Ne.symm ha]

/-- The same of the first of the jobs requeued. -/
lemma owes_requeued (honce : (b :: requeued).Nodup) :
    (resuming [] (b :: requeued)).owes b = some .requeue ∧
      (resuming [] requeued).owes b = none :=
  ⟨by simp [owes], by simp [owes, (List.nodup_cons.mp honce).1]⟩

lemma owes_requeued_tail (ha : a ≠ b) :
    (resuming [] requeued).owes a = (resuming [] (b :: requeued)).owes a := by
  simp [owes, ha]

end Startup

namespace Daemon

variable {cfg : Config} {root root' : Root} {d d' : Daemon} {a : JobAddress} {token : Token}
  {t t' : RoundTask}

/-! ### Submits -/

lemma admits_setSubmit (key : RepoKey) (submit : Option Submit) :
    (d.setSubmit key submit).admits cfg a =
      if a.key = key then
        (submit.bind Submit.admitted).any fun id => cfg.address key id = a
      else d.admits cfg a := by
  by_cases hkey : a.key = key
  · subst hkey
    simp [admits, setSubmit]
  · simp [admits, setSubmit, hkey]

/-- What a submit's step is to a job: the parts of its view that are not submits stay. -/
lemma view_setSubmit (key : RepoKey) (submit : Option Submit) :
    (d.setSubmit key submit).view cfg root a =
      { d.view cfg root a with submitting := (d.setSubmit key submit).admits cfg a } := rfl

/-- A submit that has admitted no job before or after a step is nothing to any. -/
lemma quiet_setSubmit {key : RepoKey} {submit : Option Submit}
    (before : (d.submits key).bind Submit.admitted = none)
    (after : submit.bind Submit.admitted = none) :
    JobMove a.id (d.view cfg root a) ((d.setSubmit key submit).view cfg root a) := by
  have hadmits : (d.setSubmit key submit).admits cfg a = d.admits cfg a := by
    rw [admits_setSubmit]
    split
    · rename_i hkey
      rw [after, admits, hkey, before]
    · rfl
  rw [view_setSubmit, hadmits]
  exact .quiet

/-- A submit admits a job that stands idle. -/
lemma accept_setSubmit {key : RepoKey} {submit : Submit} {id : ℕ} (hserving : d.isServing = true)
    (before : (d.submits key).bind Submit.admitted = none) (after : submit.admitted = some id)
    (hidle : standing (root.events (cfg.address key id)) = some .idle) :
    JobMove a.id (d.view cfg root a) ((d.setSubmit key (some submit)).view cfg root a) := by
  by_cases ha : cfg.address key id = a
  · have hkey : a.key = key := by rw [← ha]; rfl
    have hadmits : (d.setSubmit key (some submit)).admits cfg a = true := by
      rw [admits_setSubmit, if_pos hkey, Option.bind_some, after]
      simpa using ha
    rw [view_setSubmit, hadmits]
    exact .accept (by rw [← ha]; exact hidle) (owes_of_serving hserving)
  · have hadmits : (d.setSubmit key (some submit)).admits cfg a = d.admits cfg a := by
      rw [admits_setSubmit]
      split
      · rename_i hkey
        rw [Option.bind_some, after, admits, hkey, before]
        simpa using ha
      · rfl
    rw [view_setSubmit, hadmits]
    exact .quiet

end Daemon

/-! ## To each job, every step is a move -/

section Effects

variable {cfg : Config} {root root' : Root} {d d' : Daemon} {token : Token} {t : RoundTask}

open Daemon

/-- A step of a round's task is to each job one of its moves. -/
theorem TaskEffect.moves (effect : TaskEffect root d token t root' d')
    (inv : DaemonInv cfg root d) (ht : d.tasks token = some t) (a : JobAddress) :
    JobMove a.id (d.view cfg root a) (d'.view cfg root' a) := by
  cases effect with
  | proceeds phase same held holds lived lives fails cancels =>
      refine quiet_of_task (setTask_tasks d token _) ht rfl ?_ rfl rfl rfl
      simp only [RoundTask.crewman, same, held, holds]
  | opens stream phase opening opened counted =>
      refine quiet_of_task (setTask_tasks d token { t with launching := false, phase })
        ht rfl ?_ rfl
        rfl rfl
      simp only [RoundTask.crewman, opening, opened]
      rfl
  | appends now due isDue => exact append_moves inv ht isDue now
  | collects c c' disk collecting next => exact collect_moves ht collecting next
  | abandons waits held lived why => exact abandon_moves ht waits held
  | dropsLaunching returned counted =>
      exact quiet_of_task (setTask_tasks d token { t with launching := false })
        ht rfl rfl rfl rfl rfl
  | dropsRegistration returned uncounted => exact dropRegistration_moves ht returned rfl rfl rfl rfl
  | dropsSlot deregistered => exact dropSlot_moves ht deregistered rfl rfl rfl rfl

/-- Entering a round changes the crew of its own job alone. -/
lemma DaemonInv.crew_of_added (inv : DaemonInv cfg root d)
    (htasks : d'.tasks = Function.update d.tasks d.nextToken (some t)) {a : JobAddress}
    (ha : t.address ≠ a) : d'.crew a = d.crew a := by
  have hnew : ∀ t', d.tasks d.nextToken = some t' → t'.address = t.address := by
    intro t' h
    rw [inv.fresh d.nextToken (Nat.le_refl _)] at h
    cases h
  rw [crew_update htasks hnew, if_neg ha]

/-- A job that is queued stands requested. -/
lemma DaemonInv.requested_of_queued (inv : DaemonInv cfg root d) {a : JobAddress}
    (hqueued : (root.report a).state = .queued) :
    standing (root.events a) = some .requested := by
  obtain ⟨s, hs⟩ := (inv.job a).stands
  have hstanding := (queued_iff_of_standing hs).mp hqueued
  rw [← hstanding]
  exact hs

/-- A job that can be continued has a directory and stands idle. -/
lemma DaemonInv.idle_of_continuedJob (inv : DaemonInv cfg root d) {a : JobAddress} {id : ℕ}
    {provider : String}
    (h : continuedJob id (a ∈ root.jobDirs) (root.report a) = .ok provider) :
    a ∈ root.jobDirs ∧ standing (root.events a) = some .idle := by
  obtain ⟨s, hs⟩ := (inv.job a).stands
  have hs : standing (root.events a) = some s := hs
  have hreads := reads_of_standing hs
  unfold continuedJob at h
  split at h
  · rename_i hexists
    refine ⟨by simpa using hexists, ?_⟩
    have hneither : (JobProgress.ofEvents (root.events a)).state ≠ .queued ∧
        (JobProgress.ofEvents (root.events a)).state ≠ .running := by
      constructor <;> intro hstate <;>
        simp [Root.report, hstate] at h
    rw [hs]
    cases s with
    | idle => rfl
    | requested => exact absurd hreads.1 hneither.1
    | started => exact absurd hreads.1 hneither.2
    | launched => exact absurd hreads.1 hneither.2
  · simp at h

/-- What the table says when it does not answer for a job's next round. -/
lemma free_of_alreadyLaunched {queue : JobQueue} {a : JobAddress} {report : JobReport}
    (hqueued : report.state = .queued) (hfree : queue.alreadyLaunched a report = false) :
    ∀ launched, queue.cancels a = some launched → launched.round ≠ report.rounds + 1 := by
  intro launched hlaunched hround
  simp [JobQueue.alreadyLaunched, hlaunched, LaunchedRound.isAwaitedBy, hqueued, hround] at hfree

variable (cfg root d) in
/-- What a job sees of a step that pays what it is owed, and what every other sees. -/
lemma view_paid {b : JobAddress} (hself : d'.owes b = none)
    (hothers : ∀ a, a ≠ b → d'.owes a = d.owes a) (hcrew : ∀ a, a ≠ b → d'.crew a = d.crew a)
    (hentry : ∀ a, a ≠ b → d'.queue.cancels a = d.queue.cancels a)
    (hsubmits : d'.submits = d.submits)
    (hevents : ∀ a, a ≠ b → root'.events a = root.events a) (a : JobAddress) :
    d'.view cfg root' a =
      if a = b then ⟨root'.events b, d'.crew b, d'.queue.cancels b, d.admits cfg b, none⟩
      else d.view cfg root a := by
  split
  · rename_i ha
    subst ha
    simp only [view, admits, hsubmits, hself]
  · rename_i ha
    simp only [view, admits, hsubmits, hothers a ha, hcrew a ha, hentry a ha, hevents a ha]

/-- A starting daemon takes up a round its job is owed. -/
lemma reattach_moves (inv : DaemonInv cfg root d) {b : JobAddress} {round : ℕ}
    {handle : RoundHandle}
    {others : List (JobAddress × Resumption)} {requeued : List JobAddress}
    (hstartup : d.startup = .resuming ((b, .reattach round handle) :: others) requeued)
    (htasks : d'.tasks = Function.update d.tasks d.nextToken
      (some ⟨b, round, requestsIn (root.events b), false, .reattaching handle⟩))
    (hentries : d'.queue.cancels =
      Function.update d.queue.cancels b (some ⟨round, d.nextToken⟩))
    (hsubmits : d'.submits = d.submits) (hstartup' : d'.startup = .resuming others requeued)
    (a : JobAddress) : JobMove a.id (d.view cfg root a) (d'.view cfg root a) := by
  obtain ⟨hhead, hself⟩ := Startup.owes_head (inv.once _ _ hstartup)
  have howes : d.owes b = some (.reattach round handle) := by rw [owes, hstartup, hhead]
  obtain ⟨s, hs⟩ := (inv.job b).stands
  obtain ⟨-, rfl⟩ := launched_of_owed hs ((inv.job b).owes _ howes).1
  have hcrew : ∀ a, d'.crew a = if b = a then Function.update (d.crew a) d.nextToken
      (some ⟨(JobProgress.ofEvents (root.events b)).rounds, requestsIn (root.events b), .launched,
        true⟩) else d.crew a := fun a =>
    crew_update htasks fun t h =>
      absurd ((inv.fresh d.nextToken (Nat.le_refl _)).symm.trans h) (by simp)
  have hview : d'.view cfg root a = _ :=
    view_paid cfg root d (by rw [owes, hstartup', hself])
      (fun a ha => by rw [owes, owes, hstartup, hstartup', Startup.owes_tail ha])
      (fun a ha => by rw [hcrew, if_neg (Ne.symm ha)])
      (fun a ha => by rw [hentries, Function.update_of_ne ha]) hsubmits (fun _ _ => rfl) a
  rw [hview]
  split
  · rename_i ha
    subst ha
    rw [hcrew, if_pos rfl, hentries, Function.update_self]
    exact .reattach d.nextToken handle howes
  · exact .quiet

/-- A job requeued is owed nothing more. -/
lemma requeue_moves {b : JobAddress} (howes : d.owes b = some .requeue) (hself : d'.owes b = none)
    (hothers : ∀ a, a ≠ b → d'.owes a = d.owes a) (htasks : d'.tasks = d.tasks)
    (hentries : d'.queue.cancels = d.queue.cancels) (hsubmits : d'.submits = d.submits)
    (a : JobAddress) : JobMove a.id (d.view cfg root a) (d'.view cfg root a) := by
  have hview : d'.view cfg root a = _ :=
    view_paid cfg root d hself hothers (fun a _ => crew_congr htasks a)
      (fun a _ => by rw [hentries]) hsubmits (fun _ _ => rfl) a
  rw [hview]
  split
  · rename_i ha
    subst ha
    rw [crew_congr htasks, hentries]
    exact .requeue howes
  · exact .quiet

/-- A round lost while launching is closed. -/
lemma closeLost_moves (inv : DaemonInv cfg root d) {b : JobAddress} {round : ℕ}
    (howes : d.owes b = some (.lostWhileLaunching round)) (hself : d'.owes b = none)
    (hothers : ∀ a, a ≠ b → d'.owes a = d.owes a) (htasks : d'.tasks = d.tasks)
    (hentries : d'.queue.cancels = d.queue.cancels) (hsubmits : d'.submits = d.submits)
    (now : Instant) (reason : String) (a : JobAddress) :
    JobMove a.id (d.view cfg root a)
      (d'.view cfg (root.append b now (.roundFailed reason)) a) := by
  obtain ⟨howed, hnone, -⟩ := (inv.job b).owes _ howes
  obtain ⟨s, hs⟩ := (inv.job b).stands
  obtain rfl := started_of_owed hs howed
  have hview : d'.view cfg (root.append b now (.roundFailed reason)) a = _ :=
    view_paid cfg root d hself hothers (fun a _ => crew_congr htasks a)
      (fun a _ => by rw [hentries]) hsubmits (fun a ha => by rw [append_events, if_neg ha]) a
  rw [hview]
  split
  · rename_i ha
    subst ha
    rw [crew_congr htasks, hentries, append_events, if_pos rfl]
    refine .close ⟨now, .roundFailed reason⟩ rfl (.inr hs) ?_
    intro token m hm
    simp [hnone] at hm
  · exact .quiet

/-- A queued job that no round is launched for is closed by its cancel. -/
lemma close_moves (inv : DaemonInv cfg root d) {b : JobAddress} (hserving : d.isServing = true)
    (hqueued : (root.report b).state = .queued)
    (hfree : d.queue.alreadyLaunched b (root.report b) = false) (now : Instant) (reason : String)
    (a : JobAddress) :
    JobMove a.id (d.view cfg root a) (d.view cfg (root.append b now (.roundFailed reason)) a) := by
  have hstands := inv.requested_of_queued hqueued
  have hview : d.view cfg (root.append b now (.roundFailed reason)) a = _ :=
    view_paid cfg root d (owes_of_serving hserving) (fun _ _ => rfl) (fun _ _ => rfl)
      (fun _ _ => rfl) rfl (fun a ha => by rw [append_events, if_neg ha]) a
  rw [hview]
  split
  · rename_i ha
    subst ha
    rw [append_events, if_pos rfl]
    exact .close ⟨now, .roundFailed reason⟩ rfl (.inl hstands)
      ((inv.job a).unattended_of_free hstands (free_of_alreadyLaunched hqueued hfree))
  · exact .quiet

/-- The dispatcher registers a queued job's next round. -/
lemma register_moves (inv : DaemonInv cfg root d) {b : JobAddress} (hserving : d.isServing = true)
    (hqueued : (root.report b).state = .queued)
    (hfree : d.queue.alreadyLaunched b (root.report b) = false)
    (htasks : d'.tasks = Function.update d.tasks d.nextToken
      (some ⟨b, (root.report b).rounds + 1, requestsIn (root.events b), false, .registered⟩))
    (hentries : d'.queue.cancels = Function.update d.queue.cancels b
      (some ⟨(root.report b).rounds + 1, d.nextToken⟩))
    (hsubmits : d'.submits = d.submits) (hstartup : d'.startup = d.startup) (a : JobAddress) :
    JobMove a.id (d.view cfg root a) (d'.view cfg root a) := by
  have hstands := inv.requested_of_queued hqueued
  have hnew : ∀ t, d.tasks d.nextToken = some t → t.address = b := fun t h =>
    absurd ((inv.fresh d.nextToken (Nat.le_refl _)).symm.trans h) (by simp)
  have hcrew := fun a => crew_update (a := a) htasks hnew
  by_cases ha : a = b
  · subst ha
    have hview : d'.view cfg root a =
        { (d.view cfg root a).setCrew d.nextToken
            ⟨(d.view cfg root a).rounds + 1, requestsIn (root.events a), .waiting, true⟩ with
          entry := some ⟨(d.view cfg root a).rounds + 1, d.nextToken⟩ } := by
      simp only [view, hcrew, if_pos, hentries, Function.update_self, admits, hsubmits, owes,
        hstartup]
      rfl
    rw [hview]
    refine .register d.nextToken ?_ hstands (free_of_alreadyLaunched hqueued hfree)
      (owes_of_serving hserving)
    simp [view, crew, inv.fresh d.nextToken (Nat.le_refl _)]
  · rw [view_congr rfl (by rw [hcrew, if_neg (Ne.symm ha)])
      (by rw [hentries, Function.update_of_ne ha]) hsubmits hstartup]
    exact .quiet

/-- A submit records its request. -/
lemma record_moves {key : RepoKey} {submit : Submit} {id : ℕ} {e : EventKind}
    (holds : d.submits key = some submit) (admitted : submit.admitted = some id)
    (asks : e.lifecycle = some .requested) (now : Instant) (a : JobAddress) :
    JobMove a.id (d.view cfg root a)
      ((d.setSubmit key (some (.recorded id))).view cfg
        (root.append (cfg.address key id) now e) a) := by
  have hafter : (d.setSubmit key (some (.recorded id))).admits cfg a =
      if a.key = key then false else d.admits cfg a := by
    rw [admits_setSubmit]
    rfl
  have hbefore : a.key = key → d.admits cfg a = decide (cfg.address key id = a) := by
    rintro rfl
    simp [admits, holds, admitted]
  by_cases ha : cfg.address key id = a
  · have hkey : a.key = key := by rw [← ha]; rfl
    have hadmits : d.admits cfg a = true := by rw [hbefore hkey]; simpa using ha
    have hview : (d.setSubmit key (some (.recorded id))).view cfg
        (root.append (cfg.address key id) now e) a =
          { d.view cfg root a with
            events := root.events a ++ [⟨now, e⟩]
            submitting := false } := by
      simp only [view, hafter, if_pos hkey, append_events, if_pos ha.symm]
      rfl
    rw [hview]
    exact .request ⟨now, e⟩ asks hadmits
  · have hview : (d.setSubmit key (some (.recorded id))).view cfg
        (root.append (cfg.address key id) now e) a = d.view cfg root a := by
      have hsame : (if a.key = key then false else d.admits cfg a) = d.admits cfg a := by
        split
        · rename_i hkey
          rw [hbefore hkey]
          simpa using ha
        · rfl
      simp only [view, hafter, hsame, append_events, if_neg (Ne.symm ha)]
      rfl
    rw [hview]
    exact .quiet

/-- A submit that is refused withdraws from its job. -/
lemma refuse_moves (key : RepoKey) (a : JobAddress) :
    JobMove a.id (d.view cfg root a) ((d.setSubmit key none).view cfg root a) := by
  rw [view_setSubmit, admits_setSubmit]
  split
  · exact .withdraw
  · exact .quiet

/-- What a step of a daemon is to each job. -/
theorem DaemonEffect.moves {act : DaemonAction} (effect : DaemonEffect cfg root d act root' d')
    (inv : DaemonInv cfg root d) (a : JobAddress) :
    JobMove a.id (d.view cfg root a) (d'.view cfg root' a) := by
  cases effect with
  | reattaches now b round handle others requeued startup =>
      refine reattach_moves inv startup ?_ ?_ ?_ ?_ a <;> rfl
  | closesLost now b round others requeued startup =>
      obtain ⟨hhead, hself⟩ := Startup.owes_head (inv.once _ _ startup)
      have howes : d.owes b = some (.lostWhileLaunching round) := by rw [owes, startup, hhead]
      refine closeLost_moves inv howes ?_ ?_ ?_ ?_ ?_ now _ a
      · exact hself
      · intro a ha
        rw [owes, owes, startup, Startup.owes_tail ha]
      all_goals rfl
  | passesOver now b others requeued startup =>
      obtain ⟨hhead, hself⟩ := Startup.owes_head (inv.once _ _ startup)
      have howes : d.owes b = some .requeue := by rw [owes, startup, hhead]
      refine requeue_moves howes ?_ ?_ ?_ ?_ ?_ a
      · exact hself
      · intro a ha
        rw [owes, owes, startup, Startup.owes_tail ha]
      all_goals rfl
  | requeues b requeued startup =>
      obtain ⟨hhead, hself⟩ := Startup.owes_requeued (inv.once _ _ startup)
      have howes : d.owes b = some .requeue := by rw [owes, startup, hhead]
      refine requeue_moves howes ?_ ?_ ?_ ?_ ?_ a
      · exact hself
      · intro a ha
        rw [owes, owes, startup, Startup.owes_requeued_tail ha]
      all_goals rfl
  | serves startup =>
      have howes : d.owes a = none := by
        rw [owes, startup]
        rfl
      have hview : Daemon.view cfg root { d with startup := .serving } a = d.view cfg root a := by
        simp only [view, howes]
        rfl
      rw [hview]
      exact .quiet
  | holds key submission serving free =>
      refine quiet_setSubmit ?_ rfl
      rw [free]
      rfl
  | continues key submission id provider serving holding idle =>
      refine accept_setSubmit serving ?_ rfl (inv.idle_of_continuedJob idle).2
      rw [holding]
      rfl
  | creates key id submission serving holding new =>
      refine accept_setSubmit serving ?_ rfl ?_
      · rw [holding]
        rfl
      · rw [inv.absent _ new]
        rfl
  | records key now base configured submit id request serving holds admitted =>
      exact record_moves holds admitted rfl now a
  | enqueues key id serving recorded =>
      have hbefore : (d.submits key).bind Submit.admitted = none := by
        rw [recorded]
        rfl
      have hmove : JobMove a.id (d.view cfg root a) ((d.setSubmit key none).view cfg root a) :=
        quiet_setSubmit hbefore rfl
      exact hmove
  | refuses key submit serving holds unrecorded => exact refuse_moves key a
  | fires b now token serving => exact .quiet
  | closes b now serving queued free => exact close_moves inv serving queued free now _ a
  | cancelsNothing b now because serving => exact .quiet
  | stopsLaunching serving => exact .quiet
  | receives b pending serving receiving first => exact .quiet
  | findsSlot b serving waiting free => exact .quiet
  | registers b serving looking queued free =>
      refine register_moves inv serving queued free ?_ ?_ ?_ ?_ a <;> rfl
  | skips b serving looking why => exact .quiet
  | counts token t serving registered mine =>
      exact quiet_of_task (setTask_tasks d token { t with launching := true })
        mine rfl rfl rfl rfl rfl
  | spawns token t serving counted mine =>
      exact quiet_of_task (setTask_tasks d token { t with phase := .reading }) mine rfl
        (crewman_of_spawned inv.toTasksInv counted mine) rfl rfl rfl
  | returns serving idle stopping => exact .quiet
  | task token t act root' d' mine effect => exact effect.moves inv mine a

/-! ## Every step keeps the invariant -/

/-- A step that neither registers a round nor touches one keeps what holds of the tasks. -/
lemma TasksInv.of_same (inv : TasksInv d) (htasks : d'.tasks = d.tasks)
    (hnext : d'.nextToken = d.nextToken) (hhand : d'.dispatcher.hand = d.dispatcher.hand) :
    TasksInv d' := by
  refine ⟨?_, ?_, ?_, ?_⟩
  · rw [htasks, hnext]
    exact inv.fresh
  · rw [htasks, hhand]
    exact inv.inHand
  · rw [htasks, hhand]
    exact inv.hand
  · rw [htasks]
    exact inv.failing

/-- The token a round would be given next is in nobody's hands. -/
lemma TasksInv.hand_ne_next (inv : TasksInv d) : d.dispatcher.hand ≠ some d.nextToken := by
  intro hhand
  obtain ⟨t, ht, -⟩ := inv.hand _ hhand
  rw [inv.fresh _ (Nat.le_refl _)] at ht
  cases ht

lemma TasksInv.lt_next (inv : TasksInv d) (ht : d.tasks token = some t) :
    token < d.nextToken := by
  by_contra hle
  rw [inv.fresh _ (Nat.le_of_not_lt hle)] at ht
  cases ht

/-- A step that changes one task: the task is in the dispatcher's hands exactly when it is
registered and not spawned, and no other comes into them or leaves them. -/
lemma TasksInv.update (inv : TasksInv d) {changed : Option RoundTask}
    (htasks : d'.tasks = Function.update d.tasks token changed) (hlt : token < d'.nextToken)
    (hnext : d.nextToken ≤ d'.nextToken)
    (hself : d'.dispatcher.hand = some token ↔ ∃ t', changed = some t' ∧ t'.phase = .registered)
    (hothers : ∀ token', token' ≠ token →
      (d'.dispatcher.hand = some token' ↔ d.dispatcher.hand = some token'))
    (hfailing : ∀ t' stage reason, changed = some t' → t'.phase = .failing stage reason →
      stage ≠ .over) : TasksInv d' := by
  refine ⟨?_, ?_, ?_, ?_⟩
  · intro token' hle
    have hne : token' ≠ token := Nat.ne_of_gt (Nat.lt_of_lt_of_le hlt hle)
    rw [htasks, Function.update_of_ne hne]
    exact inv.fresh token' (Nat.le_trans hnext hle)
  · intro token' t' h hphase
    rw [htasks] at h
    rcases entry_of_update h with ⟨rfl, hnew⟩ | ⟨hne, hold⟩
    · exact hself.mpr ⟨t', hnew, hphase⟩
    · exact (hothers token' hne).mpr (inv.inHand token' t' hold hphase)
  · intro token' hhand
    by_cases htoken : token' = token
    · subst htoken
      obtain ⟨t', hnew, hphase⟩ := hself.mp hhand
      exact ⟨t', by rw [htasks, Function.update_self, hnew], hphase⟩
    · obtain ⟨t', ht', hphase⟩ := inv.hand token' ((hothers token' htoken).mp hhand)
      exact ⟨t', by rw [htasks, Function.update_of_ne htoken, ht'], hphase⟩
  · intro token' t' stage reason h hphase
    rw [htasks] at h
    rcases entry_of_update h with ⟨-, hnew⟩ | ⟨-, hold⟩
    · exact hfailing t' stage reason hnew hphase
    · exact inv.failing token' t' stage reason hold hphase

/-- A step of a spawned round's task. -/
lemma TasksInv.of_frame (inv : TasksInv d) (ht : d.tasks token = some t)
    (frame : TaskFrame root d token t root' d') : TasksInv d' := by
  obtain ⟨changed, htasks, hchanged⟩ := frame.task
  refine inv.update htasks ?_ (Nat.le_of_eq frame.nextToken.symm) ⟨?_, ?_⟩ ?_ ?_
  · rw [frame.nextToken]
    exact inv.lt_next ht
  · intro hhand
    rw [frame.dispatcher] at hhand
    obtain ⟨t', ht', hphase⟩ := inv.hand token hhand
    obtain rfl : t' = t := Option.some.inj (ht'.symm.trans ht)
    have hlived := frame.lived
    rw [hphase] at hlived
    cases hlived
  · rintro ⟨t', hnew, hphase⟩
    have hlives := (hchanged t' hnew).2.1
    rw [hphase] at hlives
    cases hlives
  · intro token' _
    rw [frame.dispatcher]
  · intro t' stage reason hnew
    exact (hchanged t' hnew).2.2 stage reason

/-- What a daemon keeps of its tasks. -/
lemma DaemonEffect.keepsTasks {act : DaemonAction} (effect : DaemonEffect cfg root d act root' d')
    (inv : TasksInv d) : TasksInv d' := by
  cases effect with
  | reattaches now b round handle others requeued startup =>
      refine inv.update rfl (Nat.lt_succ_self _) (Nat.le_succ _) ⟨?_, ?_⟩ (fun _ _ => Iff.rfl) ?_
      · exact fun hhand => absurd hhand inv.hand_ne_next
      · rintro ⟨t', ⟨rfl⟩, hphase⟩
        cases hphase
      · rintro t' stage reason ⟨rfl⟩ hphase
        cases hphase
  | registers b serving looking queued free =>
      refine inv.update rfl (Nat.lt_succ_self _) (Nat.le_succ _) ⟨?_, fun _ => rfl⟩ ?_ ?_
      · exact fun _ => ⟨_, rfl, rfl⟩
      · intro token' hne
        simp [Dispatcher.hand, looking, Ne.symm hne]
      · rintro t' stage reason ⟨rfl⟩ hphase
        cases hphase
  | counts token t serving registered mine =>
      obtain ⟨t', ht', hphase⟩ := inv.hand token (by rw [registered]; rfl)
      obtain rfl : t' = t := Option.some.inj (ht'.symm.trans mine)
      refine inv.update rfl (inv.lt_next mine) (Nat.le_refl _) ⟨?_, fun _ => rfl⟩ ?_ ?_
      · exact fun _ => ⟨_, rfl, hphase⟩
      · intro token' _
        simp [Dispatcher.hand, registered]
      · rintro t'' stage reason ⟨rfl⟩ hfailing
        exact inv.failing token t' stage reason mine hfailing
  | spawns token t serving counted mine =>
      refine inv.update rfl (inv.lt_next mine) (Nat.le_refl _) ⟨?_, ?_⟩ ?_ ?_
      · intro hhand
        cases hhand
      · rintro ⟨t', ⟨rfl⟩, hphase⟩
        cases hphase
      · intro token' hne
        simp [Dispatcher.hand, counted, Ne.symm hne]
      · rintro t' stage reason ⟨rfl⟩ hfailing
        cases hfailing
  | task token t act root' d' mine effect => exact inv.of_frame mine effect.frame
  | receives b pending serving receiving first =>
      exact inv.of_same rfl rfl (by rw [receiving]; rfl)
  | findsSlot b serving waiting free => exact inv.of_same rfl rfl (by rw [waiting]; rfl)
  | skips b serving looking why => exact inv.of_same rfl rfl (by rw [looking]; rfl)
  | returns serving idle stopping =>
      refine inv.of_same rfl rfl ?_
      rcases idle with hreceiving | ⟨b, hwaiting⟩
      · rw [hreceiving]
        rfl
      · rw [hwaiting]
        rfl
  | _ => exact inv.of_same rfl rfl rfl

/-- A job whose log is not empty has a directory. -/
lemma DaemonInv.mem_of_standing (inv : DaemonInv cfg root d) {a : JobAddress} {s : Standing}
    (hs : standing (root.events a) = some s) (hne : s ≠ .idle) : a ∈ root.jobDirs := by
  by_contra habsent
  rw [inv.absent a habsent, standing_nil, Option.some.injEq] at hs
  exact hne hs.symm

/-- What a starting daemon owes a job, the job's log says. -/
lemma DaemonInv.owed_of_startup (inv : DaemonInv cfg root d) {b : JobAddress} {r : Resumption}
    {others : List (JobAddress × Resumption)} {requeued : List JobAddress}
    (hstartup : d.startup = .resuming ((b, r) :: others) requeued) :
    owed b.id (root.events b) = some r := by
  have howes : d.owes b = some r := by
    rw [owes, hstartup, (Startup.owes_head (inv.once _ _ hstartup)).1]
  exact ((inv.job b).owes r howes).1

/-- A job that is owed something has a directory. -/
lemma DaemonInv.mem_of_owed (inv : DaemonInv cfg root d) {b : JobAddress} {r : Resumption}
    (howed : owed b.id (root.events b) = some r) : b ∈ root.jobDirs := by
  by_contra habsent
  have hnone : owed b.id (root.events b) = none := by
    rw [inv.absent b habsent]
    exact owed_of_standing_idle standing_nil
  rw [hnone] at howed
  cases howed

/-- Appending to the log of a job that has a directory. -/
lemma DaemonInv.absent_append (inv : DaemonInv cfg root d) {b : JobAddress}
    (hmem : b ∈ root.jobDirs) (now : Instant) (kind : EventKind) (a : JobAddress)
    (ha : a ∉ root.jobDirs) : (root.append b now kind).events a = [] := by
  have hne : a ≠ b := by
    rintro rfl
    exact ha hmem
  rw [append_events, if_neg hne]
  exact inv.absent a ha

/-- A step writes to no job that has no directory. -/
lemma DaemonEffect.keepsAbsent {act : DaemonAction} (effect : DaemonEffect cfg root d act root' d')
    (inv : DaemonInv cfg root d) : ∀ a, a ∉ root'.jobDirs → root'.events a = [] := by
  cases effect with
  | closesLost now b round others requeued startup =>
      exact inv.absent_append (inv.mem_of_owed (inv.owed_of_startup startup)) now _
  | creates key id submission serving holding new =>
      intro a ha
      exact inv.absent a fun hmem => ha (List.mem_append_left _ hmem)
  | records key now base configured submit id request serving holds admitted =>
      exact inv.absent_append (inv.submitted key submit id holds admitted) now _
  | closes b now serving queued free =>
      exact inv.absent_append (inv.mem_of_standing (inv.requested_of_queued queued) (by simp)) now _
  | task token t act root' d' mine effect =>
      intro a ha
      have hframe := effect.frame
      rw [hframe.jobDirs] at ha
      have hne : a ≠ t.address := by
        rintro rfl
        exact ha (inv.tasked token t mine)
      rw [hframe.events a hne]
      exact inv.absent a ha
  | _ => exact inv.absent

/-- A round is registered only for a job that has a directory. -/
lemma DaemonEffect.keepsTasked {act : DaemonAction} (effect : DaemonEffect cfg root d act root' d')
    (inv : DaemonInv cfg root d) :
    ∀ token t, d'.tasks token = some t → t.address ∈ root'.jobDirs := by
  have hupdate : ∀ (token : Token) (changed : Option RoundTask),
      (∀ t', changed = some t' → t'.address ∈ root.jobDirs) →
      ∀ token' t', Function.update d.tasks token changed token' = some t' →
        t'.address ∈ root.jobDirs := by
    intro token changed hchanged token' t' h
    rcases entry_of_update h with ⟨-, hnew⟩ | ⟨-, hold⟩
    · exact hchanged t' hnew
    · exact inv.tasked token' t' hold
  cases effect with
  | reattaches now b round handle others requeued startup =>
      refine hupdate d.nextToken _ ?_
      rintro t' ⟨rfl⟩
      exact inv.mem_of_owed (inv.owed_of_startup startup)
  | creates key id submission serving holding new =>
      intro token t ht
      exact List.mem_append_left _ (inv.tasked token t ht)
  | registers b serving looking queued free =>
      refine hupdate d.nextToken _ ?_
      rintro t' ⟨rfl⟩
      exact inv.mem_of_standing (inv.requested_of_queued queued) (by simp)
  | counts token t serving registered mine =>
      refine hupdate token _ ?_
      rintro t' ⟨rfl⟩
      exact inv.tasked token t mine
  | spawns token t serving counted mine =>
      refine hupdate token _ ?_
      rintro t' ⟨rfl⟩
      exact inv.tasked token t mine
  | task token t act root' d' mine effect =>
      have hframe := effect.frame
      obtain ⟨changed, htasks, hchanged⟩ := hframe.task
      rw [htasks, hframe.jobDirs]
      refine hupdate token changed ?_
      intro t' hnew
      rw [(hchanged t' hnew).1]
      exact inv.tasked token t mine
  | _ => exact inv.tasked

/-- A submit continues a job that has a directory. -/
lemma DaemonEffect.keepsSubmitted {act : DaemonAction}
    (effect : DaemonEffect cfg root d act root' d') (inv : DaemonInv cfg root d) :
    ∀ key submit id, d'.submits key = some submit → submit.admitted = some id →
      cfg.address key id ∈ root'.jobDirs := by
  have hset : ∀ (key : RepoKey) (changed : Option Submit) (dirs : List JobAddress),
      (∀ a, a ∈ root.jobDirs → a ∈ dirs) →
      (∀ submit id, changed = some submit → submit.admitted = some id →
        cfg.address key id ∈ dirs) →
      ∀ key' submit id, (d.setSubmit key changed).submits key' = some submit →
        submit.admitted = some id → cfg.address key' id ∈ dirs := by
    intro key changed dirs hdirs hchanged key' submit id h hadmitted
    rcases entry_of_update h with ⟨rfl, hnew⟩ | ⟨-, hold⟩
    · exact hchanged submit id hnew hadmitted
    · exact hdirs _ (inv.submitted key' submit id hold hadmitted)
  cases effect with
  | holds key submission serving free =>
      refine hset key _ _ (fun _ h => h) ?_
      rintro submit id ⟨rfl⟩ hadmitted
      cases hadmitted
  | continues key submission id provider serving holding idle =>
      refine hset key _ _ (fun _ h => h) ?_
      rintro submit id' ⟨rfl⟩ ⟨rfl⟩
      exact (inv.idle_of_continuedJob idle).1
  | creates key id submission serving holding new =>
      refine hset key _ _ (fun _ h => List.mem_append_left _ h) ?_
      rintro submit id' ⟨rfl⟩ ⟨rfl⟩
      exact List.mem_append_right _ (List.mem_singleton.mpr rfl)
  | records key now base configured submit id request serving holds admitted =>
      refine hset key _ _ (fun _ h => h) ?_
      rintro submit' id' ⟨rfl⟩ hadmitted
      cases hadmitted
  | enqueues key id serving recorded =>
      refine hset key none _ (fun _ h => h) ?_
      intro submit id' hnone
      cases hnone
  | refuses key submit serving holds unrecorded =>
      refine hset key none _ (fun _ h => h) ?_
      intro submit id' hnone
      cases hnone
  | task token t act root' d' mine effect =>
      have hframe := effect.frame
      rw [hframe.submits, hframe.jobDirs]
      exact inv.submitted
  | _ => exact inv.submitted

/-- A starting daemon owes each job one thing, to the end. -/
lemma DaemonEffect.keepsOnce {act : DaemonAction} (effect : DaemonEffect cfg root d act root' d')
    (inv : DaemonInv cfg root d) : ∀ others requeued, d'.startup = .resuming others requeued →
      (others.map Prod.fst ++ requeued).Nodup := by
  cases effect with
  | reattaches now b round handle others requeued startup =>
      rintro others' requeued' ⟨rfl, rfl⟩
      exact (List.nodup_cons.mp (inv.once _ _ startup)).2
  | closesLost now b round others requeued startup =>
      rintro others' requeued' ⟨rfl, rfl⟩
      exact (List.nodup_cons.mp (inv.once _ _ startup)).2
  | passesOver now b others requeued startup =>
      rintro others' requeued' ⟨rfl, rfl⟩
      exact (List.nodup_cons.mp (inv.once _ _ startup)).2
  | requeues b requeued startup =>
      rintro others' requeued' ⟨rfl, rfl⟩
      exact (List.nodup_cons.mp (inv.once _ _ startup)).2
  | serves startup =>
      intro others requeued h
      cases h
  | task token t act root' d' mine effect =>
      rw [effect.frame.startup]
      exact inv.once
  | _ => exact inv.once

/-- What is left to give a starting daemon's jobs holds no place in line but at its end. -/
lemma DaemonEffect.keepsOthers {act : DaemonAction} (effect : DaemonEffect cfg root d act root' d')
    (inv : DaemonInv cfg root d) : ∀ others requeued, d'.startup = .resuming others requeued →
      ∀ job ∈ others, job.2 ≠ .requeue := by
  cases effect with
  | reattaches now b round handle others requeued startup =>
      rintro others' requeued' ⟨rfl, rfl⟩ job hjob
      exact inv.others _ _ startup job (List.mem_cons_of_mem _ hjob)
  | closesLost now b round others requeued startup =>
      rintro others' requeued' ⟨rfl, rfl⟩ job hjob
      exact inv.others _ _ startup job (List.mem_cons_of_mem _ hjob)
  | passesOver now b others requeued startup =>
      rintro others' requeued' ⟨rfl, rfl⟩ job hjob
      exact inv.others _ _ startup job (List.mem_cons_of_mem _ hjob)
  | requeues b requeued startup =>
      rintro others' requeued' ⟨rfl, rfl⟩ job hjob
      cases hjob
  | serves startup =>
      intro others requeued h
      cases h
  | task token t act root' d' mine effect =>
      rw [effect.frame.startup]
      exact inv.others
  | _ => exact inv.others

/-- **Every step of a daemon keeps the invariant.** -/
theorem DaemonEffect.keeps {act : DaemonAction} (effect : DaemonEffect cfg root d act root' d')
    (inv : DaemonInv cfg root d) : DaemonInv cfg root' d' :=
  { effect.keepsTasks inv.toTasksInv with
    job := fun a => (inv.job a).move (effect.moves inv a)
    absent := effect.keepsAbsent inv
    tasked := effect.keepsTasked inv
    submitted := effect.keepsSubmitted inv
    once := effect.keepsOnce inv
    others := effect.keepsOthers inv }

lemma DaemonInv.step (inv : DaemonInv cfg root d) {act : DaemonAction}
    (h : Daemon.step cfg (root, d) act = some (root', d')) : DaemonInv cfg root' d' :=
  (DaemonEffect.of_step h).keeps inv

end Effects

end AssemblyLine
