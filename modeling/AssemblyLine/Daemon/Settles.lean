import AssemblyLine.Daemon.Places
import AssemblyLine.Framework.Settling
import Mathlib.Data.Prod.Lex

/-!
# A daemon that is left alone settles

Clients submit and cancel, an operator tells the daemon to stop; every other step is the daemon's
own (`DaemonAction.isOwn`).  Left to its own steps a daemon cannot go on for ever, and where it can
go no further no round is left, no submit holds a lock and the dispatcher has nothing in line
(`undisturbed_daemon_settles`): no interleaving of the parties deadlocks.  Unless a place in line is
thrown away (`KeepsPlaces`), every job has then come to its verdict (`undisturbed_jobs_judged`).

A call that is under way is a step its party has left, so what this asks of the world is that
every fetch, launch and stream comes to an end.  A launch may return a stream of any length: the
measure counts first the steps that are left when each collection is one, and then the lines left
to collect.
-/

namespace AssemblyLine

/-- Not asked for by a client or the operator. -/
def DaemonAction.isOwn : DaemonAction → Bool
  | .hold _ _ => false
  | .cancel _ _ => false
  | .stopLaunching => false
  | _ => true

/-! ## What is left to do -/

/-- The steps left of a round's task, a collection counted as one. -/
@[simp] def RoundPhase.stepsLeft : RoundPhase → ℕ
  | .registered => 11
  | .reading => 10
  | .configuring _ => 9
  | .starting _ _ => 8
  | .launching _ => 7
  | .recording _ _ => 6
  | .reattaching _ => 6
  | .opening _ => 5
  | .collecting _ => 4
  | .failing _ _ => 3
  | .returned => 2
  | .deregistered => 1

/-- The lines left to read, the positions left to record, and the cancel that may still come. -/
def RoundCollection.effectsLeft (c : RoundCollection) : ℕ :=
  2 * c.unread.length + (if c.unrecorded.isSome then 1 else 0) + (if c.cancelling then 0 else 1)

def RoundPhase.effectsLeft : RoundPhase → ℕ
  | .collecting c => c.effectsLeft
  | _ => 0

def RoundTask.stepsLeft (t : RoundTask) : ℕ := t.phase.stepsLeft + if t.launching then 1 else 0

/-- A job in line: its round is still to be registered. -/
@[simp] def Dispatcher.stepsLeft : Dispatcher → ℕ
  | .returned => 0
  | .receiving => 1
  | .counted _ => 1
  | .registered _ => 3
  | .looking _ => 15
  | .waiting _ => 16

@[simp] def Submit.stepsLeft : Submit → ℕ
  | .recorded _ => 17
  | .created _ _ => 18
  | .continued _ _ _ => 18
  | .holding _ => 19

@[simp] def Startup.stepsLeft : Startup → ℕ
  | .serving => 0
  | .resuming others requeued => 17 * (others.length + requeued.length) + 1

namespace Daemon

/-- The steps left when each collection is one, with submits for the repositories `keys`. -/
def stepsLeft (keys : Finset RepoKey) (d : Daemon) : ℕ :=
  d.startup.stepsLeft + total keys Submit.stepsLeft d.submits + 16 * d.queue.pending.length +
    d.dispatcher.stepsLeft + total (Finset.range d.nextToken) RoundTask.stepsLeft d.tasks

/-- The steps left within the collections. -/
def effectsLeft (d : Daemon) : ℕ :=
  total (Finset.range d.nextToken) (fun t => t.phase.effectsLeft) d.tasks

def left (keys : Finset RepoKey) (d : Daemon) : ℕ ×ₗ ℕ := toLex (d.stepsLeft keys, d.effectsLeft)

end Daemon

/-! ## Every step of the daemon's own lets it fall -/

section Falls

variable {cfg : Config} {root root' : Root} {d d' : Daemon} {token : Token} {t t' : RoundTask}
  {keys : Finset RepoKey}

/-- One task has less left to do, and nothing else has changed of the tasks. -/
def TaskFalls (d : Daemon) (token : Token) (t : RoundTask) (d' : Daemon) : Prop :=
  ∃ changed : Option RoundTask, d'.tasks = Function.update d.tasks token changed ∧
    (changed.elim 0 RoundTask.stepsLeft < t.stepsLeft ∨
      changed.elim 0 RoundTask.stepsLeft = t.stepsLeft ∧
        changed.elim 0 (fun t => t.phase.effectsLeft) < t.phase.effectsLeft)

/-- A task goes on to a phase with fewer steps left. -/
lemma TaskFalls.of_phase {before phase : RoundPhase} (hphase : t.phase = before)
    (hless : phase.stepsLeft < before.stepsLeft) :
    TaskFalls d token t (d.setTask token { t with phase }) := by
  refine ⟨some { t with phase }, rfl, .inl ?_⟩
  simp only [Option.elim, RoundTask.stepsLeft, hphase]
  omega

lemma RoundPhase.stepsLeft_of_due {phase : RoundPhase} {round : ℕ} {due : EventKind × RoundPhase}
    (h : phase.due round = some due) : due.2.stepsLeft < phase.stepsLeft := by
  unfold RoundPhase.due at h
  split at h <;> cases h <;> simp

lemma RoundPhase.stepsLeft_afterStream (c : RoundCollection) (endedBecause : String) :
    (RoundPhase.afterStream c endedBecause).stepsLeft < 4 := by
  rw [RoundPhase.afterStream_eq]
  split <;> simp

lemma RoundCollection.next_eq {c c' : RoundCollection} {disk disk' : RoundDisk}
    (h : c.next disk = some (c', disk')) :
    c.toCollection.next disk = some (c'.toCollection, disk') := by
  unfold RoundCollection.next at h
  split at h
  · simp at h
  · rename_i inner disk'' hnext
    simp only [Option.some.injEq, Prod.mk.injEq] at h
    obtain ⟨rfl, rfl⟩ := h
    exact hnext

lemma RoundCollection.effectsLeft_of_next {c c' : RoundCollection} {disk disk' : RoundDisk}
    (h : c.next disk = some (c', disk')) : c'.effectsLeft < c.effectsLeft := by
  have hnext := RoundCollection.next_eq h
  unfold Collection.next at hnext
  split at hnext
  · rename_i seq hunrecorded
    simp only [Option.some.injEq, Prod.mk.injEq] at hnext
    rw [RoundCollection.effectsLeft, RoundCollection.effectsLeft, ← hnext.1, hunrecorded]
    simp
  · split at hnext
    · simp at hnext
    · rename_i hunrecorded _ line rest hunread
      simp only [Option.some.injEq, Prod.mk.injEq] at hnext
      rw [RoundCollection.effectsLeft, RoundCollection.effectsLeft, ← hnext.1, hunrecorded, hunread]
      simp only [List.length_cons, Option.isSome_none]
      split
      · simp
      · simp
        omega

lemma RoundCollection.effectsLeft_of_cancel {c c' : RoundCollection} (h : c.cancel = some c') :
    c'.effectsLeft < c.effectsLeft := by
  simp only [RoundCollection.cancel, Option.ite_none_left_eq_some, Option.some.injEq] at h
  obtain ⟨hrunning, rfl⟩ := h
  simp only [RoundCollection.effectsLeft, if_neg hrunning]
  simp

/-- A collection goes on within itself. -/
lemma TaskFalls.of_collection {c c' : RoundCollection} (hphase : t.phase = .collecting c)
    (hless : c'.effectsLeft < c.effectsLeft) :
    TaskFalls d token t (d.setTask token { t with phase := .collecting c' }) := by
  refine ⟨_, rfl, .inr ⟨?_, ?_⟩⟩
  · simp [Option.elim, RoundTask.stepsLeft, hphase]
  · simp only [Option.elim, RoundPhase.effectsLeft, hphase]
    exact hless

/-- Every step of a task leaves it less to do. -/
theorem taskFalls_of_step {act : TaskAction}
    (h : Daemon.taskStep root d token t act = some (root', d')) : TaskFalls d token t d' := by
  cases act with
  | readRequest =>
      obtain ⟨hphase, rfl, ⟨request, rfl⟩ | ⟨-, rfl⟩⟩ := Daemon.taskStep_readRequest h <;>
        exact .of_phase hphase (by simp)
  | seeCancelled =>
      obtain ⟨request, hphase, -, rfl, rfl⟩ := Daemon.taskStep_seeCancelled h
      exact .of_phase hphase (by simp)
  | seeStopping =>
      obtain ⟨request, hphase, -, rfl, rfl⟩ := Daemon.taskStep_seeStopping h
      exact .of_phase hphase (by simp)
  | readConfig config =>
      obtain ⟨request, hphase, rfl, rfl⟩ := Daemon.taskStep_readConfig h
      exact .of_phase hphase (by simp)
  | append now =>
      obtain ⟨due, hdue, rfl, rfl⟩ := Daemon.taskStep_append h
      exact .of_phase rfl (RoundPhase.stepsLeft_of_due hdue)
  | launchReturns launched =>
      obtain ⟨request, phase, hphase, rfl, rfl, ⟨handle, stream, rfl⟩ | ⟨reason, rfl⟩⟩ :=
        Daemon.taskStep_launchReturns h <;> exact .of_phase hphase (by simp)
  | reattachReturns running =>
      obtain ⟨handle, phase, hphase, rfl, rfl, ⟨stream, rfl⟩ | ⟨reason, rfl⟩⟩ :=
        Daemon.taskStep_reattachReturns h <;> exact .of_phase hphase (by simp)
  | startCollecting =>
      obtain ⟨stream, phase, hphase, rfl, rfl, ⟨hcounted, rfl⟩ | rfl⟩ :=
        Daemon.taskStep_startCollecting h
      · refine ⟨_, rfl, .inl ?_⟩
        simp [Option.elim, RoundTask.stepsLeft, hphase, hcounted]
      · exact .of_phase hphase (by simp)
  | collect =>
      obtain ⟨c, c', disk, hphase, hnext, rfl, rfl⟩ := Daemon.taskStep_collect h
      exact .of_collection hphase (RoundCollection.effectsLeft_of_next hnext)
  | cancelRound =>
      obtain ⟨c, c', hphase, hcancel, rfl, rfl⟩ := Daemon.taskStep_cancelRound h
      exact .of_collection hphase (RoundCollection.effectsLeft_of_cancel hcancel)
  | streamEnds endedBecause =>
      obtain ⟨c, hphase, rfl, rfl⟩ := Daemon.taskStep_streamEnds h
      exact .of_phase hphase (RoundPhase.stepsLeft_afterStream c endedBecause)
  | dropLaunching =>
      obtain ⟨hphase, hcounted, rfl, rfl⟩ := Daemon.taskStep_dropLaunching h
      refine ⟨_, rfl, .inl ?_⟩
      simp [Option.elim, RoundTask.stepsLeft, hphase, hcounted]
  | dropRegistration =>
      obtain ⟨hphase, -, rfl, rfl⟩ := Daemon.taskStep_dropRegistration h
      refine ⟨_, rfl, .inl ?_⟩
      simp [Option.elim, RoundTask.stepsLeft, hphase]
  | dropSlot =>
      obtain ⟨hphase, rfl, rfl⟩ := Daemon.taskStep_dropSlot h
      refine ⟨none, rfl, .inl ?_⟩
      simp [Option.elim, RoundTask.stepsLeft, hphase]

/-- A daemon one of whose tasks has less to do has less to do. -/
lemma TaskFalls.left_lt (falls : TaskFalls d token t d') (inv : TasksInv d)
    (frame : TaskFrame root d token t root' d') (ht : d.tasks token = some t) :
    d'.left keys < d.left keys := by
  obtain ⟨changed, htasks, hless⟩ := falls
  have hmem : token ∈ Finset.range d.nextToken := Finset.mem_range.mpr (inv.lt_next ht)
  have hsteps := total_update RoundTask.stepsLeft d.tasks hmem changed
  have heffects := total_update (fun t : RoundTask => t.phase.effectsLeft) d.tasks hmem changed
  rw [ht, Option.elim_some] at hsteps heffects
  rw [Daemon.left, Daemon.left, Prod.Lex.toLex_lt_toLex]
  simp only [Daemon.stepsLeft, Daemon.effectsLeft, frame.startup, frame.submits, frame.pending,
    frame.dispatcher, frame.nextToken, htasks]
  omega

/-- A daemon with fewer steps left has less to do. -/
lemma Daemon.left_lt_of_steps (h : d'.stepsLeft keys < d.stepsLeft keys) :
    d'.left keys < d.left keys := by
  rw [Daemon.left, Daemon.left, Prod.Lex.toLex_lt_toLex]
  exact .inl h

/-- A submit that goes on to one with fewer steps left, or is over. -/
lemma stepsLeft_setSubmit {key : RepoKey} {submit : Submit} (hkey : key ∈ keys)
    (holds : d.submits key = some submit) (next : Option Submit) :
    (d.setSubmit key next).stepsLeft keys + submit.stepsLeft =
      d.stepsLeft keys + next.elim 0 Submit.stepsLeft := by
  have htotal := total_update Submit.stepsLeft d.submits hkey next
  rw [holds, Option.elim_some] at htotal
  simp only [Daemon.stepsLeft, Daemon.setSubmit]
  omega

/-- A step of the daemon's own takes no new lock. -/
lemma DaemonEffect.submits_of_own {act : DaemonAction}
    (effect : DaemonEffect cfg root d act root' d') (own : act.isOwn = true) {key : RepoKey}
    (h : d'.submits key ≠ none) : d.submits key ≠ none := by
  have hset : ∀ {key' : RepoKey} {submit : Submit} {next : Option Submit},
      d.submits key' = some submit →
        Function.update d.submits key' next key ≠ none → d.submits key ≠ none := by
    intro key' submit next holds hnext
    by_cases hkey : key = key'
    · rw [hkey, holds]
      simp
    · rwa [Function.update_of_ne hkey] at hnext
  cases effect with
  | holds key' submission serving free => cases own
  | continues key' submission id provider serving holding idle => exact hset holding h
  | creates key' id submission serving holding new => exact hset holding h
  | records key' now base configured submit id request serving holds admitted => exact hset holds h
  | enqueues key' id serving recorded => exact hset recorded h
  | refuses key' submit serving holds unrecorded => exact hset holds h
  | task token t act root' d' mine effect =>
      rw [effect.frame.submits] at h
      exact h
  | _ => exact h

/-- Every step of the daemon's own leaves it less to do. -/
theorem left_lt_of_own {act : DaemonAction} (h : Daemon.step cfg (root, d) act = some (root', d'))
    (own : act.isOwn = true) (inv : TasksInv d) (hkeys : ∀ key, d.submits key ≠ none → key ∈ keys) :
    d'.left keys < d.left keys := by
  have hkey : ∀ {key submit}, d.submits key = some submit → key ∈ keys := by
    intro key submit holds
    apply hkeys
    rw [holds]
    simp
  have hnext : d.tasks d.nextToken = none := inv.fresh _ le_rfl
  cases DaemonEffect.of_step h with
  | task token t act root' d' mine effect =>
      simp only [Daemon.step, mine, Option.bind_some] at h
      exact (taskFalls_of_step h).left_lt inv effect.frame mine
  | reattaches now a round handle others requeued startup =>
      apply Daemon.left_lt_of_steps
      simp only [Daemon.stepsLeft, Daemon.addTask, total_range_succ, startup]
      simp [RoundTask.stepsLeft, JobQueue.takeSlot, JobQueue.register]
      omega
  | closesLost now a round others requeued startup =>
      apply Daemon.left_lt_of_steps
      simp only [Daemon.stepsLeft, startup, Startup.stepsLeft, List.length_cons]
      omega
  | passesOver now a others requeued startup =>
      apply Daemon.left_lt_of_steps
      simp only [Daemon.stepsLeft, startup, Startup.stepsLeft, List.length_cons]
      omega
  | requeues a requeued startup =>
      apply Daemon.left_lt_of_steps
      simp only [Daemon.stepsLeft, startup, Startup.stepsLeft, List.length_cons, List.length_nil,
        JobQueue.enqueue, List.length_append]
      omega
  | serves startup =>
      apply Daemon.left_lt_of_steps
      simp only [Daemon.stepsLeft, startup, Startup.stepsLeft, List.length_nil]
      omega
  | holds key submission serving free => cases own
  | fires a now token serving does => cases own
  | closes a now serving queued free does => cases own
  | cancelsNothing a now because serving does => cases own
  | stopsLaunching serving => cases own
  | continues key submission id provider serving holding idle =>
      apply Daemon.left_lt_of_steps
      have hset :=
        stepsLeft_setSubmit (hkey holding) holding (some (.continued submission id provider))
      simp only [Submit.stepsLeft, Option.elim_some] at hset
      omega
  | creates key id submission serving holding new =>
      apply Daemon.left_lt_of_steps
      have hset := stepsLeft_setSubmit (hkey holding) holding (some (.created submission id))
      simp only [Submit.stepsLeft, Option.elim_some] at hset
      omega
  | records key now base configured submit id request serving holds admitted =>
      apply Daemon.left_lt_of_steps
      have hset := stepsLeft_setSubmit (hkey holds) holds (some (.recorded id))
      cases submit <;> simp only [Submit.admitted, reduceCtorEq] at admitted <;>
        simp only [Submit.stepsLeft, Option.elim_some] at hset <;> omega
  | enqueues key id serving recorded =>
      apply Daemon.left_lt_of_steps
      have hset := stepsLeft_setSubmit (hkey recorded) recorded none
      simp only [Submit.stepsLeft, Option.elim_none, Daemon.stepsLeft, Daemon.setSubmit] at hset
      simp only [Daemon.stepsLeft, Daemon.setSubmit, JobQueue.enqueue, List.length_append,
        List.length_singleton]
      omega
  | refuses key submit serving holds unrecorded =>
      apply Daemon.left_lt_of_steps
      have hset := stepsLeft_setSubmit (hkey holds) holds none
      cases submit <;> simp only [Submit.stepsLeft, Option.elim_none] at hset <;> omega
  | receives a pending serving receiving first =>
      apply Daemon.left_lt_of_steps
      simp only [Daemon.stepsLeft, receiving, first, Dispatcher.stepsLeft, List.length_cons]
      omega
  | findsSlot a serving waiting free =>
      apply Daemon.left_lt_of_steps
      simp only [Daemon.stepsLeft, waiting, Dispatcher.stepsLeft]
      omega
  | registers a serving looking queued free =>
      apply Daemon.left_lt_of_steps
      simp only [Daemon.stepsLeft, Daemon.addTask, total_range_succ, looking]
      simp [RoundTask.stepsLeft, JobQueue.register]
      omega
  | skips a serving looking why =>
      apply Daemon.left_lt_of_steps
      simp only [Daemon.stepsLeft, looking, Dispatcher.stepsLeft]
      omega
  | counts token t serving registered mine =>
      apply Daemon.left_lt_of_steps
      have hmem : token ∈ Finset.range d.nextToken := Finset.mem_range.mpr (inv.lt_next mine)
      have htotal := total_update RoundTask.stepsLeft d.tasks hmem
        (some { t with launching := true })
      rw [mine] at htotal
      simp only [Option.elim_some, RoundTask.stepsLeft, if_true] at htotal
      simp only [Daemon.stepsLeft, Daemon.setTask, registered, Dispatcher.stepsLeft,
        JobQueue.countLaunching]
      omega
  | spawns token t serving counted mine =>
      apply Daemon.left_lt_of_steps
      obtain ⟨t', ht', hphase⟩ := inv.hand token (by rw [counted]; rfl)
      obtain rfl : t' = t := Option.some.inj (ht'.symm.trans mine)
      have hmem : token ∈ Finset.range d.nextToken := Finset.mem_range.mpr (inv.lt_next mine)
      have htotal := total_update RoundTask.stepsLeft d.tasks hmem
        (some { t' with phase := .reading })
      rw [mine] at htotal
      simp only [Option.elim_some, RoundTask.stepsLeft, hphase, RoundPhase.stepsLeft] at htotal
      simp only [Daemon.stepsLeft, Daemon.setTask, counted, Dispatcher.stepsLeft, JobQueue.takeSlot]
      omega
  | returns serving idle stopping =>
      apply Daemon.left_lt_of_steps
      rcases idle with idle | ⟨a, idle⟩ <;>
        simp only [Daemon.stepsLeft, idle, Dispatcher.stepsLeft] <;> omega

end Falls

/-! ## At rest -/

/-- A daemon with nothing left to do. -/
structure Daemon.Idle (d : Daemon) : Prop where
  serving : d.isServing = true
  submits : ∀ key, d.submits key = none
  tasks : ∀ token, d.tasks token = none
  /-- The dispatcher has nobody in line, or has been told to stop. -/
  dispatcher : (d.dispatcher = .receiving ∧ d.queue.pending = []) ∨ d.dispatcher = .returned

section Rest

variable {cfg : Config} {root : Root} {d : Daemon} {allowed : Root × Daemon → DaemonAction → Prop}

/-- A daemon that is still starting has a step left. -/
lemma serving_of_atRest (rest : AtRest (Daemon.step cfg) allowed (root, d))
    (hallowed : ∀ act, act.isOwn = true → act ≠ .look → allowed (root, d) act) :
    d.isServing = true := by
  cases hstartup : d.startup with
  | serving => simp [Daemon.isServing, hstartup]
  | resuming others requeued =>
      exfalso
      cases others with
      | cons job others =>
          have hstuck := rest (.resume 0) (hallowed _ rfl (by simp))
          obtain ⟨a, owed⟩ := job
          cases owed <;> simp [Daemon.step, Daemon.startupStep, hstartup] at hstuck
      | nil =>
          cases requeued with
          | cons a requeued =>
              have hstuck := rest .requeue (hallowed _ rfl (by simp))
              simp [Daemon.step, Daemon.startupStep, hstartup] at hstuck
          | nil =>
              have hstuck := rest .serve (hallowed _ rfl (by simp))
              simp [Daemon.step, Daemon.startupStep, hstartup] at hstuck

/-- A submit that holds a lock has a step left. -/
lemma submits_of_atRest (rest : AtRest (Daemon.step cfg) allowed (root, d))
    (hallowed : ∀ act, act.isOwn = true → act ≠ .look → allowed (root, d) act)
    (hserving : d.isServing = true) (key : RepoKey) : d.submits key = none := by
  cases hsubmit : d.submits key with
  | none => rfl
  | some submit =>
      exfalso
      cases submit with
      | holding submission =>
          have hstuck := rest (.refuse key) (hallowed _ rfl (by simp))
          simp [Daemon.step, Daemon.submitStep, hserving, hsubmit] at hstuck
      | continued submission id provider =>
          have hstuck := rest (.refuse key) (hallowed _ rfl (by simp))
          simp [Daemon.step, Daemon.submitStep, hserving, hsubmit] at hstuck
      | created submission id =>
          have hstuck := rest (.recordRequest key 0 ⟨"", ""⟩ none) (hallowed _ rfl (by simp))
          simp [Daemon.step, Daemon.submitStep, hserving, hsubmit] at hstuck
      | recorded id =>
          have hstuck := rest (.enqueue key) (hallowed _ rfl (by simp))
          simp [Daemon.step, Daemon.submitStep, hserving, hsubmit] at hstuck

/-- A task that is spawned has a step left, whatever it waits for. -/
lemma exists_taskStep {token : Token} {t : RoundTask} (hphase : t.phase ≠ .registered) :
    ∃ act, Daemon.taskStep root d token t act ≠ none := by
  cases h : t.phase with
  | registered => exact absurd h hphase
  | reading =>
      refine ⟨.readRequest, ?_⟩
      simp only [Daemon.taskStep, h]
      split <;> simp
  | configuring request => exact ⟨.readConfig (.ok ()), by simp [Daemon.taskStep, h]⟩
  | starting request config =>
      refine ⟨.append 0, ?_⟩
      rcases config with e | ⟨⟩ <;> simp [Daemon.taskStep, h, RoundPhase.due]
  | launching request => exact ⟨.launchReturns (.error ""), by simp [Daemon.taskStep, h]⟩
  | recording handle stream => exact ⟨.append 0, by simp [Daemon.taskStep, h, RoundPhase.due]⟩
  | reattaching handle => exact ⟨.reattachReturns (.error ""), by simp [Daemon.taskStep, h]⟩
  | opening stream =>
      refine ⟨.startCollecting, ?_⟩
      simp only [Daemon.taskStep, h]
      split <;> simp
  | collecting c =>
      -- Either a line is left, or the stream has ended.
      cases hnext : c.next (root.roundDisk t.address t.round) with
      | some next => exact ⟨.collect, by simp [Daemon.taskStep, h, hnext]⟩
      | none => exact ⟨.streamEnds "", by simp [Daemon.taskStep, h, hnext]⟩
  | failing stage reason => exact ⟨.append 0, by simp [Daemon.taskStep, h, RoundPhase.due]⟩
  | returned =>
      cases hflag : t.launching with
      | true => exact ⟨.dropLaunching, by simp [Daemon.taskStep, h, hflag]⟩
      | false => exact ⟨.dropRegistration, by simp [Daemon.taskStep, h, hflag]⟩
  | deregistered => exact ⟨.dropSlot, by simp [Daemon.taskStep, h]⟩

/-- A round's task has a step left, its own or the dispatcher's who holds it. -/
lemma tasks_of_atRest (rest : AtRest (Daemon.step cfg) allowed (root, d))
    (hallowed : ∀ act, act.isOwn = true → act ≠ .look → allowed (root, d) act)
    (hserving : d.isServing = true) (inv : TasksInv d) (token : Token) : d.tasks token = none := by
  cases ht : d.tasks token with
  | none => rfl
  | some t =>
      exfalso
      by_cases hphase : t.phase = .registered
      · have hhand := inv.inHand token t ht hphase
        cases hdispatcher : d.dispatcher <;> simp [Dispatcher.hand, hdispatcher] at hhand
        · subst hhand
          have hstuck := rest .countLaunching (hallowed _ rfl (by simp))
          simp [Daemon.step, Daemon.dispatcherStep, hserving, hdispatcher, ht] at hstuck
        · subst hhand
          have hstuck := rest .spawn (hallowed _ rfl (by simp))
          simp [Daemon.step, Daemon.dispatcherStep, hserving, hdispatcher, ht] at hstuck
      · obtain ⟨act, hact⟩ := @exists_taskStep root d token t hphase
        have hstuck := rest (.task token act) (hallowed _ rfl (by simp))
        simp only [Daemon.step, ht, Option.bind_some] at hstuck
        exact hact hstuck

lemma holders_eq_empty {τ : Type*} {table : ℕ → Option τ} {p : τ → Bool} {n : ℕ}
    (h : ∀ i, table i = none) : holders table p n = ∅ := by
  rw [Finset.eq_empty_iff_forall_notMem]
  intro i hi
  obtain ⟨-, x, hx, -⟩ := mem_holders.mp hi
  rw [h i] at hx
  cases hx

/-- **A daemon at rest is idle**, whichever of its dispatcher's looks are allowed while a round is
left. -/
theorem idle_of_atRest (inv : AtWork cfg (root, d)) (hcap : 1 ≤ cfg.maxJobs)
    (rest : AtRest (Daemon.step cfg) allowed (root, d))
    (hallowed : ∀ act, act.isOwn = true → act ≠ .look → allowed (root, d) act)
    (hlook : (∀ token, d.tasks token = none) → allowed (root, d) .look) : d.Idle := by
  have hserving := serving_of_atRest rest hallowed
  have htasks := tasks_of_atRest rest hallowed hserving inv.daemon.toTasksInv
  refine ⟨hserving, submits_of_atRest rest hallowed hserving, htasks, ?_⟩
  cases hdispatcher : d.dispatcher with
  | receiving =>
      left
      refine ⟨rfl, ?_⟩
      cases hpending : d.queue.pending with
      | nil => rfl
      | cons a pending =>
          exfalso
          have hstuck := rest .receive (hallowed _ rfl (by simp))
          simp [Daemon.step, Daemon.dispatcherStep, hserving, hdispatcher, hpending] at hstuck
  | waiting a =>
      exfalso
      have hrunning := inv.slots.running
      rw [Daemon.liveRounds, holders_eq_empty htasks, Finset.card_empty] at hrunning
      have hfree : d.queue.running < cfg.maxJobs := by
        dsimp only at hrunning
        omega
      have hstuck := rest .slotFree (hallowed _ rfl (by simp))
      simp [Daemon.step, Daemon.dispatcherStep, hserving, hdispatcher, hfree] at hstuck
  | looking a =>
      exfalso
      have hstuck := rest .look (hlook htasks)
      simp only [Daemon.step, hserving, if_true, Daemon.dispatcherStep, hdispatcher] at hstuck
      split at hstuck <;> simp at hstuck
  | registered token =>
      obtain ⟨t, ht, -⟩ := inv.daemon.hand token (by rw [hdispatcher]; rfl)
      rw [htasks token] at ht
      cases ht
  | counted token =>
      obtain ⟨t, ht, -⟩ := inv.daemon.hand token (by rw [hdispatcher]; rfl)
      rw [htasks token] at ht
      cases ht
  | returned => exact .inr rfl

/-- Nothing is counted in an idle daemon. -/
lemma Daemon.Idle.counts (idle : d.Idle) (inv : AtWork cfg (root, d)) :
    d.queue.running = 0 ∧ d.queue.launching = 0 := by
  have hrunning := inv.slots.running
  have hlaunching := inv.slots.launching
  rw [Daemon.liveRounds, holders_eq_empty idle.tasks, Finset.card_empty] at hrunning
  rw [Daemon.launchingRounds, holders_eq_empty idle.tasks, Finset.card_empty] at hlaunching
  exact ⟨hrunning, hlaunching⟩

lemma Daemon.Idle.crew_eq_none (idle : d.Idle) (a : JobAddress) (token : Token) :
    d.crew a token = none := by
  rw [Daemon.crew, idle.tasks token]
  rfl

/-- No job runs under an idle daemon that attends to the running jobs. -/
lemma Daemon.Idle.not_running (idle : d.Idle) (inv : AtWork cfg (root, d))
    (started : d.Attends cfg root .started) (launched : d.Attends cfg root .launched)
    (a : JobAddress) : (root.report a).state ≠ .running := by
  intro hrunning
  obtain ⟨stands, hs⟩ := (inv.daemon.job a).stands
  have hattended : d.owes a ≠ none ∨ ∃ token m, d.crew a token = some m ∧ m.stage ≠ .over := by
    rcases (running_iff_of_standing hs).mp hrunning with rfl | rfl
    · exact started a hs
    · exact launched a hs
  rcases hattended with howed | ⟨token, m, hm, -⟩
  · exact howed (Daemon.owes_of_serving idle.serving)
  · have hnone : d.crew a token = some m := hm
    rw [idle.crew_eq_none] at hnone
    cases hnone

end Rest

/-! ## From any state a daemon reaches -/

section Reached

variable {cfg : Config} {allowed : World → WorldAction → Prop} {root root' : Root} {w : World}
  {d d' : Daemon}

/-- At any moment finitely many submits hold a lock. -/
lemma finite_submits (reached : Reachable (World.step cfg) allowed (fun w => w = .fresh) w)
    (hd : w.daemon = some d) : {key | d.submits key ≠ none}.Finite := by
  refine World.daemon_invariant (I := fun _ d => {key | d.submits key ≠ none}.Finite) reached ?_ ?_
    d hd
  · intro root walk _ _ _
    simp [Daemon.started]
  · intro root d act root' d' _ hfinite _ effect
    by_cases hown : act.isOwn = true
    · exact hfinite.subset fun key h => effect.submits_of_own hown h
    · cases effect with
      | holds key submission serving free =>
          apply (hfinite.insert key).subset
          intro key' h
          by_cases hkey : key' = key
          · exact .inl hkey
          · right
            rw [Set.mem_ofPred_eq, Daemon.setSubmit_submits, Function.update_of_ne hkey] at h
            exact h
      | fires a now token serving does => exact hfinite
      | closes a now serving queued free does => exact hfinite
      | cancelsNothing a now because serving does => exact hfinite
      | stopsLaunching serving => exact hfinite
      | _ => exact absurd rfl hown

/-- Only a stop stops. -/
lemma DaemonEffect.stopping_of_own {act : DaemonAction}
    (effect : DaemonEffect cfg root d act root' d') (own : act.isOwn = true) :
    d'.queue.stopping = d.queue.stopping := by
  cases effect with
  | stopsLaunching serving => cases own
  | task token t act root' d' mine effect => exact effect.frame.stopping
  | _ => rfl

/-- The dispatcher returns only when the daemon has been told to stop. -/
lemma DaemonEffect.keepsDispatching {act : DaemonAction}
    (effect : DaemonEffect cfg root d act root' d')
    (inv : d.dispatcher = .returned → d.queue.stopping = true) :
    d'.dispatcher = .returned → d'.queue.stopping = true := by
  cases effect with
  | stopsLaunching serving => exact fun _ => rfl
  | returns serving idle stopping => exact fun _ => stopping
  | receives a pending serving receiving first => exact fun h => nomatch h
  | findsSlot a serving waiting free => exact fun h => nomatch h
  | registers a serving looking queued free => exact fun h => nomatch h
  | skips a serving looking why => exact fun h => nomatch h
  | counts token t serving registered mine => exact fun h => nomatch h
  | spawns token t serving counted mine => exact fun h => nomatch h
  | task token t act root' d' mine effect =>
      rw [effect.frame.dispatcher, effect.frame.stopping]
      exact inv
  | _ => exact inv

lemma dispatching_of_reachable
    (reached : Reachable (World.step cfg) allowed (fun w => w = .fresh) w)
    (hd : w.daemon = some d) : d.dispatcher = .returned → d.queue.stopping = true := by
  refine World.daemon_invariant (I := fun _ d => d.dispatcher = .returned → d.queue.stopping = true)
    reached ?_ ?_ d hd
  · intro root walk _ _ _ h
    cases h
  · intro root d act root' d' _ inv _ effect
    exact effect.keepsDispatching inv

/-- A daemon that found the jobs recorded as running attends to them. -/
lemma attends_of_reachable {stage : Stage}
    (reached : Reachable (World.step cfg) allowed (fun w => w = .fresh) w)
    (finds : ∀ w act, allowed w act → FindsAtStart (fun report => report.state = .running) w act)
    (hstage : stage = .started ∨ stage = .launched) (hd : w.daemon = some d) :
    d.Attends cfg w.root stage := by
  refine World.attends reached hstage ?_ hd
  intro root walk hallowed a ha hs
  refine finds _ _ hallowed a ha ((running_iff_of_standing hs).mpr ?_)
  rcases hstage with rfl | rfl
  · exact .inl rfl
  · exact .inr rfl

/-- **A daemon that is left alone settles.**  In whatever state it is, where the daemons of its
root found at their start every job recorded as running, and in whatever order its parties go on,
they come to an end, and then no round is left and no submit holds a lock, nobody is in line unless
the daemon is stopping, nothing is counted, and no job is recorded as running. -/
theorem undisturbed_daemon_settles (hcap : 1 ≤ cfg.maxJobs)
    (reached : Reachable (World.step cfg) (FindsAtStart fun report => report.state = .running)
      (fun w => w = .fresh) w) (hd : w.daemon = some d) :
    Settles (Daemon.step cfg) (fun _ act => act.isOwn = true)
      (fun s => s.2.Idle ∧ (s.2.dispatcher = .returned → s.2.queue.stopping = true) ∧
        s.2.queue.running = 0 ∧ s.2.queue.launching = 0 ∧
          ∀ a, (s.1.report a).state ≠ .running) (w.root, d) := by
  obtain ⟨keys, hkeys⟩ := (finite_submits reached hd).exists_finset
  refine Settles.of_falling
    (I := fun s => AtWork cfg s ∧ (s.2.Attends cfg s.1 .started ∧ s.2.Attends cfg s.1 .launched) ∧
      (s.2.dispatcher = .returned → s.2.queue.stopping = true) ∧
        ∀ key, s.2.submits key ≠ none → key ∈ keys) (fun s => s.2.left keys) ?_ ?_ ?_
    ⟨atWork_of_reachable (Reachable.mono reached fun _ _ _ => trivial) hd,
      ⟨attends_of_reachable reached (fun _ _ h => h) (.inl rfl) hd,
        attends_of_reachable reached (fun _ _ h => h) (.inr rfl) hd⟩,
      dispatching_of_reachable reached hd, fun key h => (hkeys key).mpr h⟩
  · rintro ⟨root, d⟩ act ⟨root', d'⟩ ⟨inv, ⟨started, launched⟩, hstops, hsome⟩ own h
    have effect := DaemonEffect.of_step h
    exact ⟨inv.step h, ⟨started.of_effect inv.daemon (.inl rfl) effect,
      launched.of_effect inv.daemon (.inr rfl) effect⟩, effect.keepsDispatching hstops,
        fun key hkey => hsome key (effect.submits_of_own own hkey)⟩
  · rintro ⟨root, d⟩ act ⟨root', d'⟩ ⟨inv, -, -, hsome⟩ own h
    exact left_lt_of_own h own inv.daemon.toTasksInv hsome
  · rintro ⟨root, d⟩ ⟨inv, ⟨started, launched⟩, hstops, -⟩ rest
    have idle := idle_of_atRest inv hcap rest (fun _ own _ => own) fun _ => rfl
    obtain ⟨hrunning, hlaunching⟩ := idle.counts inv
    exact ⟨idle, hstops, hrunning, hlaunching, idle.not_running inv started launched⟩

/-- The steps in which a daemon throws no place away, and one that starts finds every job that is
queued or running. -/
def KeepsJobs (cfg : Config) (w : World) (act : WorldAction) : Prop :=
  KeepsPlaces cfg w act ∧ FindsAtStart (fun report => report.state = .running) w act

instance (cfg : Config) (w : World) (act : WorldAction) : Decidable (KeepsJobs cfg w act) :=
  inferInstanceAs (Decidable (_ ∧ _))

/-- A job's round is running when its daemon is killed; the next one has found it. -/
def reattached : List WorldAction :=
  daemonRunning (.serve :: (submitting 1 0 ++ dispatching 0 ++
    [.task 0 (.readConfig (.ok ())), .task 0 (.append 1),
      .task 0 (.launchReturns (.ok (.docker "round", roundStream))), .task 0 (.append 2)])) ++
    .kill :: .start [jobAddress] :: running [.resume 3, .serve]

/-- With a round in flight that an earlier daemon launched. -/
theorem undisturbed_daemon_settles_launched : ∃ w d,
    exec (fun w act => if FindsAtStart (fun report => report.state = .running) w act then
      World.step rootConfig w act else none) .fresh reattached = some w ∧ w.daemon = some d ∧
        d.queue.running = 1 ∧
          Settles (Daemon.step rootConfig) (fun _ act => act.isOwn = true)
            (fun s => (s.1.report jobAddress).state ≠ .running) (w.root, d) := by
  have hdone : ((exec (fun w act =>
      if FindsAtStart (fun report => report.state = .running) w act then
        World.step rootConfig w act else none) .fresh reattached).bind fun w =>
        w.daemon.map fun d => d.queue.running) = some 1 := by decide +kernel
  obtain ⟨w, hw, hd⟩ := Option.bind_eq_some_iff.mp hdone
  obtain ⟨d, hd, hrunning⟩ := Option.map_eq_some_iff.mp hd
  have hsettles := undisturbed_daemon_settles (le_refl 1) (.of_guarded_exec rfl hw) hd
  exact ⟨w, d, hw, hd, hrunning, hsettles.mono fun s hs => hs.2.2.2.2 jobAddress⟩

/-- A daemon at work that has not been told to stop, with a place for every queued job and a round
for every running one. -/
structure KeepingJobs (cfg : Config) (s : Root × Daemon) : Prop extends AtWork cfg s where
  places : PlacesInv cfg s.1 s.2
  started : s.2.Attends cfg s.1 .started
  launched : s.2.Attends cfg s.1 .launched
  going : s.2.queue.stopping = false
  dispatching : s.2.dispatcher = .returned → s.2.queue.stopping = true

/-- A daemon starts so that finds every job that is queued or running. -/
lemma KeepingJobs.of_start {walk : List JobAddress} (inv : RootInv root)
    (hwalk : walk.Perm root.jobDirsBelow)
    (queued : root.FindsEvery fun report => report.state = .queued)
    (running : root.FindsEvery fun report => report.state = .running) :
    KeepingJobs cfg (root, .started root walk) where
  daemon := .started cfg inv hwalk
  slots := .started cfg root walk
  places := .started inv hwalk queued
  started := .started inv hwalk (.inl rfl) fun a ha hs =>
    running a ha ((running_iff_of_standing hs).mpr (.inl rfl))
  launched := .started inv hwalk (.inr rfl) fun a ha hs =>
    running a ha ((running_iff_of_standing hs).mpr (.inr rfl))
  going := rfl
  dispatching h := nomatch h

lemma KeepingJobs.step {s s' : Root × Daemon} {act : DaemonAction} (keeping : KeepingJobs cfg s)
    (own : act.isOwn = true) (hplaces : KeepsPlaces cfg ⟨s.1, some s.2⟩ (.act act))
    (h : Daemon.step cfg s act = some s') : KeepingJobs cfg s' := by
  have effect := DaemonEffect.of_step h
  have inv' := keeping.toAtWork.step h
  refine
    { toAtWork := inv'
      places := ?_
      started := keeping.started.of_effect keeping.daemon (.inl rfl) effect
      launched := keeping.launched.of_effect keeping.daemon (.inr rfl) effect
      going := (effect.stopping_of_own own).trans keeping.going
      dispatching := effect.keepsDispatching keeping.dispatching }
  refine keeping.places.keepsPlaced keeping.daemon inv'.daemon effect ?_
  rintro rfl hstopping
  exact hplaces s.2 rfl hstopping

/-- At rest, such a daemon is idle: a look throws a place away only for a round that is left. -/
lemma KeepingJobs.idle {s : Root × Daemon} (keeping : KeepingJobs cfg s) (hcap : 1 ≤ cfg.maxJobs)
    (rest : AtRest (Daemon.step cfg)
      (fun s act => act.isOwn = true ∧ KeepsPlaces cfg ⟨s.1, some s.2⟩ (.act act)) s) :
    s.2.Idle := by
  obtain ⟨root, d⟩ := s
  refine idle_of_atRest keeping.toAtWork hcap rest ?_ ?_
  · intro act own hact
    refine ⟨own, ?_⟩
    cases act <;> trivial
  · intro htasks
    refine ⟨rfl, ?_⟩
    rintro d' ⟨rfl⟩ -
    rw [Bool.eq_false_iff]
    intro hdiscards
    cases hdispatcher : d.dispatcher with
    | looking a =>
        obtain ⟨-, launched, t, -, -, ht, -⟩ :=
          (Daemon.discardsLastPlace_iff hdispatcher).mp hdiscards
        rw [htasks] at ht
        cases ht
    | _ => simp [Daemon.discardsLastPlace, hdispatcher] at hdiscards

/-- No job is queued under it then: nothing is left that could be its place. -/
lemma KeepingJobs.not_queued {s : Root × Daemon} (keeping : KeepingJobs cfg s) (idle : s.2.Idle)
    (a : JobAddress) : (s.1.report a).state ≠ .queued := by
  intro hqueued
  have hreceiving : s.2.dispatcher = .receiving ∧ s.2.queue.pending = [] := by
    refine idle.dispatcher.resolve_right ?_
    intro hreturned
    have hstopping := keeping.dispatching hreturned
    rw [keeping.going] at hstopping
    cases hstopping
  rcases keeping.places keeping.going a (keeping.daemon.requested_of_queued hqueued) with
    howes | hplaced
  · rw [Daemon.owes_of_serving idle.serving] at howes
    cases howes
  · rw [keeping.daemon.placed_iff, hreceiving.1, hreceiving.2] at hplaced
    rcases hplaced with h | h | h | ⟨-, h⟩ | ⟨token, m, hm, -⟩
    · cases h
    · cases h
    · cases h
    · rw [idle.submits] at h
      cases h
    · rw [idle.crew_eq_none] at hm
      cases hm

/-- Left alone, it comes to an end with every job judged, or never asked for. -/
theorem KeepingJobs.settles {s : Root × Daemon} (keeping : KeepingJobs cfg s)
    (hcap : 1 ≤ cfg.maxJobs) (hfinite : {key | s.2.submits key ≠ none}.Finite) :
    Settles (Daemon.step cfg)
      (fun s act => act.isOwn = true ∧ KeepsPlaces cfg ⟨s.1, some s.2⟩ (.act act))
      (fun s => ∀ a, (s.1.report a).state = .pending ∨ (s.1.report a).state = .passed ∨
        (s.1.report a).state = .failed) s := by
  obtain ⟨keys, hkeys⟩ := hfinite.exists_finset
  refine Settles.of_falling
    (I := fun s => KeepingJobs cfg s ∧ ∀ key, s.2.submits key ≠ none → key ∈ keys)
    (fun s => s.2.left keys) ?_ ?_ ?_ ⟨keeping, fun key h => (hkeys key).mpr h⟩
  · rintro ⟨root, d⟩ act ⟨root', d'⟩ ⟨keeping, hsome⟩ ⟨own, hplaces⟩ h
    exact ⟨keeping.step own hplaces h,
      fun key hkey => hsome key ((DaemonEffect.of_step h).submits_of_own own hkey)⟩
  · rintro ⟨root, d⟩ act ⟨root', d'⟩ ⟨keeping, hsome⟩ ⟨own, -⟩ h
    exact left_lt_of_own h own keeping.daemon.toTasksInv hsome
  · rintro ⟨root, d⟩ ⟨keeping, -⟩ rest a
    have idle := keeping.idle hcap rest
    have hqueued := keeping.not_queued idle a
    have hrunning := idle.not_running keeping.toAtWork keeping.started keeping.launched a
    dsimp only at hqueued
    cases hstate : (root.report a).state with
    | pending => exact .inl rfl
    | passed => exact .inr (.inl rfl)
    | failed => exact .inr (.inr rfl)
    | queued => exact absurd hstate hqueued
    | running => exact absurd hstate hrunning

/-- **Every job comes to its verdict.**  Left alone, and not stopping, a daemon comes to an end with
every job passed, failed or never asked for, where its root's daemons throw no place in line away
and find at their start every job that is queued or running. -/
theorem undisturbed_jobs_judged (hcap : 1 ≤ cfg.maxJobs)
    (reached : Reachable (World.step cfg) (KeepsJobs cfg) (fun w => w = .fresh) w)
    (hd : w.daemon = some d) (hon : d.queue.stopping = false) :
    Settles (Daemon.step cfg)
      (fun s act => act.isOwn = true ∧ KeepsPlaces cfg ⟨s.1, some s.2⟩ (.act act))
      (fun s => ∀ a, (s.1.report a).state = .pending ∨ (s.1.report a).state = .passed ∨
        (s.1.report a).state = .failed) (w.root, d) := by
  have keeping : KeepingJobs cfg (w.root, d) :=
    { toAtWork := atWork_of_reachable (Reachable.mono reached fun _ _ _ => trivial) hd
      places := placesInv_of_reachable (Reachable.mono reached fun _ _ h => h.1) hd
      started := attends_of_reachable reached (fun _ _ h => h.2) (.inl rfl) hd
      launched := attends_of_reachable reached (fun _ _ h => h.2) (.inr rfl) hd
      going := hon
      dispatching := dispatching_of_reachable reached hd }
  exact keeping.settles hcap (finite_submits reached hd)

/-- A cancelled and revised job, its first round's entry still in the cancel table. -/
theorem undisturbed_jobs_judged_revised : ∃ w d,
    exec (fun w act => if KeepsJobs pairConfig w act then World.step pairConfig w act else none)
      .fresh (daemonRunning revisedAtOnce) = some w ∧ w.daemon = some d ∧
        (w.root.report jobAddress).state = .queued ∧
          Settles (Daemon.step pairConfig)
            (fun s act => act.isOwn = true ∧ KeepsPlaces pairConfig ⟨s.1, some s.2⟩ (.act act))
            (fun s => (s.1.report jobAddress).state = .pending ∨
              (s.1.report jobAddress).state = .passed ∨ (s.1.report jobAddress).state = .failed)
            (w.root, d) := by
  have hdone : ((exec (fun w act => if KeepsJobs pairConfig w act then
      World.step pairConfig w act else none) .fresh (daemonRunning revisedAtOnce)).bind fun w =>
        w.daemon.map fun d => (d.queue.stopping, (w.root.report jobAddress).state)) =
          some (false, .queued) := by decide +kernel
  obtain ⟨w, hw, hd⟩ := Option.bind_eq_some_iff.mp hdone
  obtain ⟨d, hd, hall⟩ := Option.map_eq_some_iff.mp hd
  simp only [Prod.mk.injEq] at hall
  obtain ⟨hon, hqueued⟩ := hall
  have hsettles := undisturbed_jobs_judged (by decide : 1 ≤ pairConfig.maxJobs)
    (.of_guarded_exec rfl hw) hd hon
  exact ⟨w, d, hw, hd, hqueued, hsettles.mono fun s hs => hs jobAddress⟩

end Reached

end AssemblyLine
