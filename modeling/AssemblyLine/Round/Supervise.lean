import AssemblyLine.Round.Outcome
import AssemblyLine.Runner.ChildLines

/-!
# A command and what it leaves behind

`supervise` starts a command as the leader of a process group of its own, forwards what it prints as
output frames, and waits for its exit, the deadline or a cancel.  However the command ends, its
group is killed; then the two tasks that forward its pipes are waited for, but not for long: what
the command left behind outside its group may hold them open.

A step of `Supervised` is one of any party's: the command's processes, which fork, print, exit and
leave the group as they like, the two tasks and `supervise` itself.  Nothing of the command's group
is left when `supervise` waits for the tasks, and what it returns is how the history has the command
end (`nothing_outlives_its_command`); what is framed are the lines that were printed, all of them
before the next event unless the wait was given up (`printed_lines_framed`).
-/

namespace AssemblyLine

/-- A living process the command has started. -/
structure Process where
  inGroup : Bool
  stdout : Bool
  stderr : Bool
deriving DecidableEq, Repr

/-- Whether the process can write to a pipe. -/
def Process.holds (p : Process) : Pipe → Bool
  | .stdout => p.stdout
  | .stderr => p.stderr

/-- A process that has no more than another has: its child, or what it becomes. -/
def Process.isWithin (p parent : Process) : Bool :=
  (!p.inGroup || parent.inGroup) && (!p.stdout || parent.stdout) && (!p.stderr || parent.stderr)

lemma Process.holds_of_isWithin {p parent : Process} (h : p.isWithin parent = true) {pipe : Pipe}
    (hholds : p.holds pipe = true) : parent.holds pipe = true := by
  simp only [isWithin, Bool.and_eq_true, Bool.or_eq_true, Bool.not_eq_true'] at h
  obtain ⟨⟨-, hstdout⟩, hstderr⟩ := h
  cases pipe with
  | stdout => exact hstdout.resolve_left (by simpa [holds] using hholds)
  | stderr => exact hstderr.resolve_left (by simpa [holds] using hholds)

lemma Process.inGroup_of_isWithin {p parent : Process} (h : p.isWithin parent = true)
    (hgroup : p.inGroup = true) : parent.inGroup = true := by
  simp only [isWithin, Bool.and_eq_true, Bool.or_eq_true, Bool.not_eq_true'] at h
  exact h.1.1.resolve_left (by simp [hgroup])

/-- Where `supervise` is. -/
inductive SupervisorAt
  | selecting
  /-- In `stop_with_its_group`, about to kill the group. -/
  | stopping (why : ShellOutcome)
  /-- In `stop_with_its_group`, about to kill and reap the command itself. -/
  | killing (why : ShellOutcome)
  /-- About to kill what is left of the group. -/
  | ended (outcome : Except String ShellOutcome)
  /-- Waiting for the two tasks. -/
  | draining (outcome : Except String ShellOutcome)
  | returned (outcome : Except String ShellOutcome)
deriving DecidableEq, Repr

/-- A command, what it has started, and its supervisor. -/
structure Supervised where
  timeout : Option ℕ
  cancelled : Bool
  /-- The command's own process, while it lives. -/
  child : Option Process
  /-- How it ended. -/
  status : Option ExitStatus
  /-- Every other process that lives. -/
  others : List Process
  written : Pipe → List UInt8
  forwarders : Pipe → PipeReader
  supervisor : SupervisorAt
  /-- The output frames, in the order they were appended. -/
  appended : List (Pipe × String)

inductive SuperviseAct
  | forks (parent child : Process)
  /-- A process leaves the group, or closes a pipe. -/
  | lessens (p p' : Process)
  /-- A process joins the group, while there is one. -/
  | joins (p : Process)
  | childLessens (p' : Process)
  | prints (p : Process) (pipe : Pipe) (chunk : List UInt8)
  | exits (p : Process)
  | childExits (status : ExitStatus)
  | fireCancel
  /-- A task stops when a read or an append fails, or when it waits after it was aborted. -/
  | forward (pipe : Pipe) (act : PipeReader.Act)
  | seesExit
  | waitFails (error : String)
  | deadlinePasses
  | seesCancel
  | killsGroup
  | killsChild
  /-- The two tasks have returned. -/
  | drained
  /-- `OUTPUT_DRAIN_GRACE` is over, and the tasks are aborted. -/
  | graceElapses
deriving DecidableEq, Repr

namespace Supervised

def spawned (timeout : Option ℕ) : Supervised where
  timeout
  cancelled := false
  child := some ⟨true, true, true⟩
  status := none
  others := []
  written _ := []
  forwarders _ := .opened
  supervisor := .selecting
  appended := []

def living (s : Supervised) : List Process := s.child.toList ++ s.others

/-- Nobody holds the pipe's other end. -/
def closed (s : Supervised) (pipe : Pipe) : Bool := s.living.all fun p => !p.holds pipe

/-- The command's own process ends. -/
def endChild (s : Supervised) (status : ExitStatus) : Supervised :=
  { s with child := none, status := if s.child.isSome then some status else s.status }

/-- `kill_group`: the command leads the group, so it is killed too. -/
def killGroup (s : Supervised) : Supervised :=
  { s.endChild .signaled with others := s.others.filter fun p => !p.inGroup }

/-- The command's processes, and the token. -/
def worldStep (s : Supervised) : SuperviseAct → Option Supervised
  | .forks parent child =>
    if parent ∈ s.living ∧ child.isWithin parent = true then
      some { s with others := child :: s.others }
    else none
  | .lessens p p' =>
    if p ∈ s.others ∧ p'.isWithin p = true then some { s with others := p' :: s.others.erase p }
    else none
  | .joins p =>
    if p ∈ s.others ∧ ∃ q ∈ s.living, q.inGroup = true then
      some { s with others := { p with inGroup := true } :: s.others.erase p }
    else none
  | .childLessens p' =>
    s.child.bind fun p =>
      if p'.isWithin p = true ∧ p'.inGroup = true then some { s with child := some p' } else none
  | .prints p pipe chunk =>
    if p ∈ s.living ∧ p.holds pipe = true then
      some { s with
        written := Function.update s.written pipe (s.written pipe ++ chunk)
        forwarders := Function.update s.forwarders pipe ((s.forwarders pipe).write chunk) }
    else none
  | .exits p => if p ∈ s.others then some { s with others := s.others.erase p } else none
  | .childExits status => s.child.map fun _ => s.endChild status
  | .fireCancel => some { s with cancelled := true }
  | _ => none

/-- `supervise` itself. -/
def supervisorStep (s : Supervised) : SuperviseAct → Option Supervised
  | .seesExit =>
    match s.supervisor, s.child, s.status with
    | .selecting, none, some status =>
      some { s with supervisor := .ended (.ok (.exited (status.code.getD (-1)))) }
    | _, _, _ => none
  | .waitFails e =>
    match s.supervisor with
    | .selecting => some { s with supervisor := .ended (.error e) }
    | _ => none
  | .deadlinePasses =>
    match s.supervisor with
    | .selecting =>
      if s.timeout.isSome then some { s with supervisor := .stopping .timedOut } else none
    | _ => none
  | .seesCancel =>
    match s.supervisor with
    | .selecting => if s.cancelled then some { s with supervisor := .stopping .cancelled } else none
    | _ => none
  | .killsGroup =>
    match s.supervisor with
    | .stopping why => some { s.killGroup with supervisor := .killing why }
    | .ended outcome => some { s.killGroup with supervisor := .draining outcome }
    | _ => none
  | .killsChild =>
    match s.supervisor with
    | .killing why => some { s.endChild .signaled with supervisor := .ended (.ok why) }
    | _ => none
  | .drained =>
    match s.supervisor with
    | .draining outcome =>
      if (s.forwarders .stdout).standing = .reading ∨
          (s.forwarders .stderr).standing = .reading then none
      else some { s with supervisor := .returned outcome }
    | _ => none
  | .graceElapses =>
    match s.supervisor with
    | .draining outcome => some { s with supervisor := .returned outcome }
    | _ => none
  | _ => none

/-- One step of any party's. -/
def step (s : Supervised) (act : SuperviseAct) : Option Supervised :=
  match act with
  | .forward pipe act =>
    ((s.forwarders pipe).step (s.closed pipe) act).map fun (r, line) =>
      { s with
        forwarders := Function.update s.forwarders pipe r
        appended := s.appended ++ (line.map fun line => (pipe, fromUtf8Lossy line)).toList }
  | .seesExit | .waitFails _ | .deadlinePasses | .seesCancel | .killsGroup | .killsChild | .drained
  | .graceElapses => s.supervisorStep act
  | _ => s.worldStep act

/-! ## The command's processes -/

/-- What lives in `t` comes from what lives in `s`: it holds no pipe that nobody held, and is in the
group only if somebody was. -/
structure Comes (s t : Supervised) : Prop where
  holds : ∀ p' ∈ t.living, ∀ pipe, p'.holds pipe = true → ∃ p ∈ s.living, p.holds pipe = true
  inGroup : ∀ p' ∈ t.living, p'.inGroup = true → ∃ p ∈ s.living, p.inGroup = true

variable {s t u : Supervised} {act : SuperviseAct} {pipe : Pipe}

lemma Comes.of_subset (h : ∀ p ∈ t.living, p ∈ s.living) : Comes s t where
  holds p hp _ hholds := ⟨p, h p hp, hholds⟩
  inGroup p hp hgroup := ⟨p, h p hp, hgroup⟩

lemma Comes.closed (comes : Comes s t) (h : s.closed pipe = true) : t.closed pipe = true := by
  simp only [Supervised.closed, List.all_eq_true, Bool.not_eq_true'] at h ⊢
  intro p' hp'
  rw [Bool.eq_false_iff]
  intro hholds
  obtain ⟨p, hp, hheld⟩ := comes.holds p' hp' pipe hholds
  rw [h p hp] at hheld
  cases hheld

lemma mem_living {p : Process} : p ∈ s.living ↔ s.child = some p ∨ p ∈ s.others := by
  rw [living, List.mem_append, Option.mem_toList]

lemma endChild_living (s : Supervised) (status : ExitStatus) :
    ∀ p ∈ (s.endChild status).living, p ∈ s.living := by
  intro p hp
  rw [mem_living] at hp ⊢
  exact .inr (hp.resolve_left (by simp [endChild]))

lemma killGroup_living (s : Supervised) : ∀ p ∈ s.killGroup.living, p ∈ s.living := by
  intro p hp
  rw [mem_living] at hp ⊢
  have hothers : p ∈ s.others.filter fun p => !p.inGroup :=
    hp.resolve_left (by simp [killGroup, endChild])
  exact .inr (List.mem_of_mem_filter hothers)

/-- A process with no more than one that lives takes the place of another. -/
lemma comes_replaced {p p' : Process} {others : List Process} (hp : p ∈ s.living)
    (hwithin : p'.isWithin p = true) (hothers : ∀ q ∈ others, q ∈ s.others) :
    Comes s { s with others := p' :: others } := by
  have hcases : ∀ q ∈ ({ s with others := p' :: others } : Supervised).living,
      q = p' ∨ q ∈ s.living := by
    intro q hq
    rw [mem_living] at hq
    rcases hq with hq | hq
    · exact .inr (mem_living.mpr (.inl hq))
    · rcases List.mem_cons.mp hq with hq | hq
      · exact .inl hq
      · exact .inr (mem_living.mpr (.inr (hothers q hq)))
  constructor
  · intro q hq pipe hholds
    rcases hcases q hq with rfl | hq
    · exact ⟨p, hp, Process.holds_of_isWithin hwithin hholds⟩
    · exact ⟨q, hq, hholds⟩
  · intro q hq hgroup
    rcases hcases q hq with rfl | hq
    · exact ⟨p, hp, Process.inGroup_of_isWithin hwithin hgroup⟩
    · exact ⟨q, hq, hgroup⟩

/-- What a step of the command's processes leaves alone, and what it adds to a pipe. -/
structure WorldEffect (s t : Supervised) : Prop where
  comes : Comes s t
  supervisor : t.supervisor = s.supervisor
  timeout : t.timeout = s.timeout
  appended : t.appended = s.appended
  cancelled : s.cancelled = true → t.cancelled = true
  /-- Only what is held open is written to. -/
  pipes : ∀ pipe, ∃ chunk, t.written pipe = s.written pipe ++ chunk ∧
    t.forwarders pipe = (s.forwarders pipe).write chunk ∧ (chunk = [] ∨ s.closed pipe = false)
  child : (t.child = s.child ∧ t.status = s.status) ∨
    (∃ p', p'.inGroup = true ∧ s.child ≠ none ∧ t.child = some p' ∧ t.status = s.status) ∨
      ∃ status, s.child ≠ none ∧ t = s.endChild status

lemma write_nil (r : PipeReader) : r.write [] = r := by
  simp [PipeReader.write]

/-- A step that touches no pipe. -/
lemma WorldEffect.of_processes {others : List Process}
    (comes : Comes s { s with others }) : WorldEffect s { s with others } where
  comes := comes
  supervisor := rfl
  timeout := rfl
  appended := rfl
  cancelled h := h
  pipes pipe := ⟨[], by simp, by simp [write_nil], .inl rfl⟩
  child := .inl ⟨rfl, rfl⟩

theorem worldEffect_of_step (h : s.worldStep act = some t) : WorldEffect s t := by
  cases act with
  | forks parent child =>
      simp only [worldStep, Option.ite_none_right_eq_some, Option.some.injEq] at h
      obtain ⟨⟨hparent, hwithin⟩, rfl⟩ := h
      exact .of_processes (comes_replaced hparent hwithin fun q hq => hq)
  | lessens p p' =>
      simp only [worldStep, Option.ite_none_right_eq_some, Option.some.injEq] at h
      obtain ⟨⟨hp, hwithin⟩, rfl⟩ := h
      exact .of_processes (comes_replaced (mem_living.mpr (.inr hp)) hwithin
        fun q hq => List.mem_of_mem_erase hq)
  | joins p =>
      simp only [worldStep, Option.ite_none_right_eq_some, Option.some.injEq] at h
      obtain ⟨⟨hp, q, hq, hgroup⟩, rfl⟩ := h
      apply WorldEffect.of_processes
      have hcases : ∀ p' ∈ ({ s with
          others := { p with inGroup := true } :: s.others.erase p } : Supervised).living,
          p' = { p with inGroup := true } ∨ p' ∈ s.living := by
        intro p' hp'
        rcases mem_living.mp hp' with hp' | hp'
        · exact .inr (mem_living.mpr (.inl hp'))
        · rcases List.mem_cons.mp hp' with hp' | hp'
          · exact .inl hp'
          · exact .inr (mem_living.mpr (.inr (List.mem_of_mem_erase hp')))
      constructor
      · intro p' hp' pipe hholds
        rcases hcases p' hp' with rfl | hp'
        · exact ⟨p, mem_living.mpr (.inr hp), by cases pipe <;> exact hholds⟩
        · exact ⟨p', hp', hholds⟩
      · intro p' _ _
        exact ⟨q, hq, hgroup⟩
  | childLessens p' =>
      simp only [worldStep, Option.bind_eq_some_iff, Option.ite_none_right_eq_some,
        Option.some.injEq] at h
      obtain ⟨p, hchild, ⟨hwithin, hgroup⟩, rfl⟩ := h
      have hcases : ∀ q ∈ ({ s with child := some p' } : Supervised).living,
          q = p' ∨ q ∈ s.living := by
        intro q hq
        rcases mem_living.mp hq with hq | hq
        · exact .inl (Option.some.inj hq).symm
        · exact .inr (mem_living.mpr (.inr hq))
      refine ⟨⟨?_, ?_⟩, rfl, rfl, rfl, fun h => h, fun pipe => ⟨[], by simp, by simp [write_nil],
        .inl rfl⟩, .inr (.inl ⟨p', hgroup, by simp [hchild], rfl, rfl⟩)⟩
      · intro q hq pipe hholds
        rcases hcases q hq with rfl | hq
        · exact ⟨p, mem_living.mpr (.inl hchild), Process.holds_of_isWithin hwithin hholds⟩
        · exact ⟨q, hq, hholds⟩
      · intro q hq hqgroup
        rcases hcases q hq with rfl | hq
        · exact ⟨p, mem_living.mpr (.inl hchild), Process.inGroup_of_isWithin hwithin hqgroup⟩
        · exact ⟨q, hq, hqgroup⟩
  | prints p pipe chunk =>
      simp only [worldStep, Option.ite_none_right_eq_some, Option.some.injEq] at h
      obtain ⟨⟨hp, hholds⟩, rfl⟩ := h
      refine ⟨.of_subset fun q hq => hq, rfl, rfl, rfl, fun h => h, fun pipe' => ?_,
        .inl ⟨rfl, rfl⟩⟩
      by_cases hpipe : pipe' = pipe
      · subst hpipe
        refine ⟨chunk, by simp, by simp, .inr ?_⟩
        rw [Bool.eq_false_iff]
        intro hclosed
        simp only [closed, List.all_eq_true, Bool.not_eq_true'] at hclosed
        rw [hclosed p hp] at hholds
        cases hholds
      · exact ⟨[], by simp [Function.update_of_ne hpipe],
          by simp [Function.update_of_ne hpipe, write_nil], .inl rfl⟩
  | exits p =>
      simp only [worldStep, Option.ite_none_right_eq_some, Option.some.injEq] at h
      obtain ⟨hp, rfl⟩ := h
      apply WorldEffect.of_processes
      apply Comes.of_subset
      intro q hq
      rw [mem_living] at hq ⊢
      exact hq.imp_right List.mem_of_mem_erase
  | childExits status =>
      simp only [worldStep, Option.map_eq_some_iff] at h
      obtain ⟨p, hchild, rfl⟩ := h
      exact ⟨.of_subset (s.endChild_living status), rfl, rfl, rfl, fun h => h,
        fun pipe => ⟨[], by simp [endChild], by simp [endChild, write_nil], .inl rfl⟩,
        .inr (.inr ⟨status, by simp [hchild], rfl⟩)⟩
  | fireCancel =>
      simp only [worldStep, Option.some.injEq] at h
      subst h
      exact ⟨.of_subset fun q hq => hq, rfl, rfl, rfl, fun _ => rfl,
        fun pipe => ⟨[], by simp, by simp [write_nil], .inl rfl⟩, .inl ⟨rfl, rfl⟩⟩
  | _ => simp [worldStep] at h

/-! ## What `supervise` does -/

/-- What a step of `supervise` is, and leaves. -/
inductive SupervisorMoves (s : Supervised) : SuperviseAct → Supervised → Prop
  | seesExit (status : ExitStatus) (selecting : s.supervisor = .selecting) (ended : s.child = none)
      (reported : s.status = some status) : SupervisorMoves s .seesExit
        { s with supervisor := .ended (.ok (.exited (status.code.getD (-1)))) }
  | waitFails (e : String) (selecting : s.supervisor = .selecting) :
      SupervisorMoves s (.waitFails e) { s with supervisor := .ended (.error e) }
  | deadlinePasses (selecting : s.supervisor = .selecting) (limited : s.timeout.isSome) :
      SupervisorMoves s .deadlinePasses { s with supervisor := .stopping .timedOut }
  | seesCancel (selecting : s.supervisor = .selecting) (fired : s.cancelled = true) :
      SupervisorMoves s .seesCancel { s with supervisor := .stopping .cancelled }
  | stops (why : ShellOutcome) (stopping : s.supervisor = .stopping why) :
      SupervisorMoves s .killsGroup { s.killGroup with supervisor := .killing why }
  | killsChild (why : ShellOutcome) (killing : s.supervisor = .killing why) :
      SupervisorMoves s .killsChild { s.endChild .signaled with supervisor := .ended (.ok why) }
  | killsRest (outcome : Except String ShellOutcome) (ended : s.supervisor = .ended outcome) :
      SupervisorMoves s .killsGroup { s.killGroup with supervisor := .draining outcome }
  | drained (outcome : Except String ShellOutcome) (draining : s.supervisor = .draining outcome)
      (forwarded : ∀ pipe, (s.forwarders pipe).standing ≠ .reading) :
      SupervisorMoves s .drained { s with supervisor := .returned outcome }
  | graceElapses (outcome : Except String ShellOutcome)
      (draining : s.supervisor = .draining outcome) :
      SupervisorMoves s .graceElapses { s with supervisor := .returned outcome }

lemma supervisorMoves_of_step (h : s.supervisorStep act = some t) : s.SupervisorMoves act t := by
  cases act with
  | seesExit =>
      simp only [supervisorStep] at h
      split at h
      · rename_i status hselecting hchild hstatus
        obtain rfl := Option.some.inj h
        exact .seesExit status hselecting hchild hstatus
      · cases h
  | waitFails e =>
      simp only [supervisorStep] at h
      split at h
      · rename_i hselecting
        obtain rfl := Option.some.inj h
        exact .waitFails e hselecting
      · cases h
  | deadlinePasses =>
      simp only [supervisorStep] at h
      split at h
      · rename_i hselecting
        simp only [Option.ite_none_right_eq_some, Option.some.injEq] at h
        obtain ⟨hlimited, rfl⟩ := h
        exact .deadlinePasses hselecting hlimited
      · cases h
  | seesCancel =>
      simp only [supervisorStep] at h
      split at h
      · rename_i hselecting
        simp only [Option.ite_none_right_eq_some, Option.some.injEq] at h
        obtain ⟨hfired, rfl⟩ := h
        exact .seesCancel hselecting hfired
      · cases h
  | killsGroup =>
      simp only [supervisorStep] at h
      split at h
      · rename_i why hstopping
        obtain rfl := Option.some.inj h
        exact .stops why hstopping
      · rename_i outcome hended
        obtain rfl := Option.some.inj h
        exact .killsRest outcome hended
      · cases h
  | killsChild =>
      simp only [supervisorStep] at h
      split at h
      · rename_i why hkilling
        obtain rfl := Option.some.inj h
        exact .killsChild why hkilling
      · cases h
  | drained =>
      simp only [supervisorStep] at h
      split at h
      · rename_i outcome hdraining
        simp only [Option.ite_none_left_eq_some, Option.some.injEq, not_or] at h
        obtain ⟨⟨hstdout, hstderr⟩, rfl⟩ := h
        refine .drained outcome hdraining fun pipe => ?_
        cases pipe with
        | stdout => exact hstdout
        | stderr => exact hstderr
      · cases h
  | graceElapses =>
      simp only [supervisorStep] at h
      split at h
      · rename_i outcome hdraining
        obtain rfl := Option.some.inj h
        exact .graceElapses outcome hdraining
      · cases h
  | _ => simp [supervisorStep] at h

/-! ## What always holds -/

end Supervised

/-- How the command ended, as `supervise` has it. -/
def SupervisorAt.outcome : SupervisorAt → Option (Except String ShellOutcome)
  | .selecting => none
  | .stopping why => some (.ok why)
  | .killing why => some (.ok why)
  | .ended outcome => some outcome
  | .draining outcome => some outcome
  | .returned outcome => some outcome

/-- Whether the group has been killed for the last time. -/
def SupervisorAt.hasKilled : SupervisorAt → Bool
  | .draining _ => true
  | .returned _ => true
  | _ => false

namespace Supervised

variable {s t u : Supervised} {act : SuperviseAct} {pipe : Pipe}

/-- What always holds of a command and its supervisor. -/
structure Supervision (s : Supervised) : Prop where
  leads : ∀ p, s.child = some p → p.inGroup = true
  reported : s.child = none ↔ s.status ≠ none
  killed : s.supervisor.hasKilled = true → ∀ p ∈ s.living, p.inGroup = false
  pipes : ∀ pipe, ∃ handed,
    HandedOn (s.closed pipe) (s.written pipe) handed (s.forwarders pipe) ∧
      ChildLines.textsOn pipe s.appended = handed.map fromUtf8Lossy

lemma supervision_spawned (timeout : Option ℕ) : Supervision (spawned timeout) where
  leads p hp := by
    obtain rfl := Option.some.inj hp
    rfl
  reported := by simp [spawned]
  killed h := nomatch h
  pipes pipe := ⟨[], HandedOn.opened _, rfl⟩

/-- The command's own end: it is reported, and nothing but it is. -/
lemma Supervision.endChild (inv : Supervision s) (status : ExitStatus) :
    (∀ p, (s.endChild status).child = some p → p.inGroup = true) ∧
      ((s.endChild status).child = none ↔ (s.endChild status).status ≠ none) := by
  refine ⟨fun p hp => (nomatch hp), ?_⟩
  simp only [Supervised.endChild]
  cases hchild : s.child with
  | some p => simp
  | none => simpa using inv.reported.mp hchild

/-- A step of the command's processes keeps it. -/
lemma Supervision.world (inv : Supervision s) (effect : WorldEffect s t) : Supervision t := by
  have hstatus : (∀ p, t.child = some p → p.inGroup = true) ∧
      (t.child = none ↔ t.status ≠ none) := by
    rcases effect.child with ⟨hchild, hsame⟩ | ⟨p', hgroup, halive, hchild, hsame⟩ |
      ⟨status, halive, hended⟩
    · rw [hchild, hsame]
      exact ⟨inv.leads, inv.reported⟩
    · rw [hchild, hsame]
      refine ⟨fun p hp => ?_, ?_⟩
      · obtain rfl := Option.some.inj hp
        exact hgroup
      · have hnone : ¬ (s.status ≠ none) := fun h => halive (inv.reported.mpr h)
        simpa using hnone
    · rw [hended]
      exact inv.endChild status
  obtain ⟨hleads, hreported⟩ := hstatus
  refine ⟨hleads, hreported, ?_, ?_⟩
  · intro hkilled p hp
    rw [effect.supervisor] at hkilled
    rw [Bool.eq_false_iff]
    intro hgroup
    obtain ⟨q, hq, hqgroup⟩ := effect.comes.inGroup p hp hgroup
    rw [inv.killed hkilled q hq] at hqgroup
    cases hqgroup
  · intro pipe
    obtain ⟨handed, hhanded, htexts⟩ := inv.pipes pipe
    obtain ⟨chunk, hwritten, hforwarder, hopen⟩ := effect.pipes pipe
    refine ⟨handed, ?_, by rw [effect.appended, htexts]⟩
    rw [hwritten, hforwarder]
    rcases hopen with rfl | hopen
    · rw [write_nil, List.append_nil]
      exact hhanded.of_closed effect.comes.closed
    · exact (hhanded.write hopen chunk).of_closed effect.comes.closed

/-- A task's step keeps it. -/
lemma Supervision.forward (inv : Supervision s) {act : PipeReader.Act}
    (h : s.step (.forward pipe act) = some t) : Supervision t := by
  simp only [step, Option.map_eq_some_iff] at h
  obtain ⟨⟨r, line⟩, hreader, rfl⟩ := h
  refine ⟨inv.leads, inv.reported, inv.killed, ?_⟩
  intro pipe'
  obtain ⟨handed, hhanded, htexts⟩ := inv.pipes pipe'
  by_cases hpipe : pipe' = pipe
  · subst hpipe
    refine ⟨handed ++ line.toList, ?_, ?_⟩
    · simp only [Function.update_self]
      exact hhanded.step hreader
    · rw [ChildLines.textsOn_append, htexts, List.map_append]
      cases line <;> simp [ChildLines.textsOn]
  · refine ⟨handed, ?_, ?_⟩
    · simp only [Function.update_of_ne hpipe]
      exact hhanded
    · rw [ChildLines.textsOn_append, htexts]
      cases line <;> simp [ChildLines.textsOn, Ne.symm hpipe]

/-- What `supervise` does to the rest: it moves on, or ends the command or its group. -/
lemma Supervision.moved (inv : Supervision s) (comes : Comes s t)
    (hleads : ∀ p, t.child = some p → p.inGroup = true)
    (hreported : t.child = none ↔ t.status ≠ none)
    (hwritten : t.written = s.written) (hforwarders : t.forwarders = s.forwarders)
    (happended : t.appended = s.appended)
    (hkilled : t.supervisor.hasKilled = true → s.supervisor.hasKilled = true ∨
      ∀ p ∈ t.living, p.inGroup = false) : Supervision t := by
  refine ⟨hleads, hreported, ?_, ?_⟩
  · intro h p hp
    rcases hkilled h with hbefore | hdead
    · rw [Bool.eq_false_iff]
      intro hgroup
      obtain ⟨q, hq, hqgroup⟩ := comes.inGroup p hp hgroup
      rw [inv.killed hbefore q hq] at hqgroup
      cases hqgroup
    · exact hdead p hp
  · intro pipe
    obtain ⟨handed, hhanded, htexts⟩ := inv.pipes pipe
    rw [hwritten, hforwarders, happended]
    exact ⟨handed, hhanded.of_closed comes.closed, htexts⟩

lemma Supervision.goes_on (inv : Supervision s) {supervisor : SupervisorAt}
    (hkilled : supervisor.hasKilled = true → s.supervisor.hasKilled = true) :
    Supervision { s with supervisor } :=
  inv.moved (.of_subset fun _ hp => hp) inv.leads inv.reported rfl rfl rfl
    (fun h => .inl (hkilled h))

/-- Nobody of the group is left of a killed one. -/
lemma killGroup_inGroup (s : Supervised) : ∀ p ∈ s.killGroup.living, p.inGroup = false := by
  intro p hp
  have hothers : p ∈ s.others.filter fun p => !p.inGroup :=
    (mem_living.mp hp).resolve_left (by simp [killGroup, Supervised.endChild])
  simpa using List.of_mem_filter hothers

/-- A step of `supervise` keeps it. -/
lemma Supervision.supervisor (inv : Supervision s) (moves : s.SupervisorMoves act t) :
    Supervision t := by
  cases moves with
  | seesExit status => exact inv.goes_on (fun h => nomatch h)
  | waitFails e => exact inv.goes_on (fun h => nomatch h)
  | deadlinePasses => exact inv.goes_on (fun h => nomatch h)
  | seesCancel => exact inv.goes_on (fun h => nomatch h)
  | stops why hstopping =>
      obtain ⟨hleads, hreported⟩ := inv.endChild .signaled
      exact inv.moved (.of_subset s.killGroup_living) hleads hreported rfl rfl rfl
        (fun h => nomatch h)
  | killsChild why hkilling =>
      obtain ⟨hleads, hreported⟩ := inv.endChild .signaled
      exact inv.moved (.of_subset (s.endChild_living .signaled)) hleads hreported rfl rfl rfl
        (fun h => nomatch h)
  | killsRest outcome hended =>
      obtain ⟨hleads, hreported⟩ := inv.endChild .signaled
      exact inv.moved (.of_subset s.killGroup_living) hleads hreported rfl rfl rfl
        (fun _ => .inr s.killGroup_inGroup)
  | drained outcome hdraining => exact inv.goes_on (fun _ => by rw [hdraining]; rfl)
  | graceElapses outcome hdraining => exact inv.goes_on (fun _ => by rw [hdraining]; rfl)

/-- A step is a task's, `supervise`'s or the rest of the world's. -/
lemma step_cases (h : s.step act = some t) :
    (∃ pipe forwarded, act = .forward pipe forwarded) ∨ s.SupervisorMoves act t ∨
      s.worldStep act = some t := by
  cases act with
  | forward pipe forwarded => exact .inl ⟨pipe, forwarded, rfl⟩
  | seesExit => exact .inr (.inl (supervisorMoves_of_step h))
  | waitFails e => exact .inr (.inl (supervisorMoves_of_step h))
  | deadlinePasses => exact .inr (.inl (supervisorMoves_of_step h))
  | seesCancel => exact .inr (.inl (supervisorMoves_of_step h))
  | killsGroup => exact .inr (.inl (supervisorMoves_of_step h))
  | killsChild => exact .inr (.inl (supervisorMoves_of_step h))
  | drained => exact .inr (.inl (supervisorMoves_of_step h))
  | graceElapses => exact .inr (.inl (supervisorMoves_of_step h))
  | _ => exact .inr (.inr h)

/-- **Every step keeps it.** -/
theorem Supervision.step (inv : Supervision s) (h : s.step act = some t) : Supervision t := by
  rcases step_cases h with ⟨pipe, forwarded, rfl⟩ | moves | h
  · exact inv.forward h
  · exact inv.supervisor moves
  · exact inv.world (worldEffect_of_step h)

lemma supervision_of_run {timeout : Option ℕ} {h : List SuperviseAct}
    (run : Run step anyAction actionsShown (spawned timeout) h s) : Supervision s :=
  run.invariant (fun _ _ _ inv _ hstep => inv.step hstep) (supervision_spawned timeout)

/-! ## How it ended -/

/-- The steps in which a command ends so, in their order: in the last, `supervise` sees it. -/
def endsBy : CommandEnd → List SuperviseAct
  | .waited status => [.childExits status, .seesExit]
  | .waitFailed e => [.waitFails e]
  | .deadline => [.deadlinePasses]
  | .cancelled => [.fireCancel, .seesCancel]

/-- The command ended so, in the history and as the state has it. -/
def Happened (h : List SuperviseAct) (s : Supervised) (ended : CommandEnd) : Prop :=
  (endsBy ended).Sublist h ∧
    match ended with
    | .waited status => s.status = some status
    | .waitFailed _ => True
    | .deadline => s.timeout.isSome
    | .cancelled => s.cancelled = true

/-- What a step leaves of what has ended a command. -/
structure Keeps (s t : Supervised) : Prop where
  status : ∀ status, s.status = some status → t.status = some status
  timeout : t.timeout = s.timeout
  cancelled : s.cancelled = true → t.cancelled = true

lemma Happened.mono {h h' : List SuperviseAct} {ended : CommandEnd} (happened : Happened h s ended)
    (keeps : Keeps s t) (hh : h.Sublist h') : Happened h' t ended := by
  obtain ⟨hends, hstate⟩ := happened
  refine ⟨hends.trans hh, ?_⟩
  cases ended with
  | waited status => exact keeps.status status hstate
  | waitFailed e => trivial
  | deadline =>
      show t.timeout.isSome = true
      rw [keeps.timeout]
      exact hstate
  | cancelled => exact keeps.cancelled hstate

lemma Supervision.status_endChild (inv : Supervision s) (status : ExitStatus) {status' : ExitStatus}
    (h : s.status = some status') : (s.endChild status).status = some status' := by
  have hnone : s.child = none := inv.reported.mpr (by simp [h])
  simp [Supervised.endChild, hnone, h]

lemma Supervision.keeps (inv : Supervision s) (h : s.step act = some t) : Keeps s t := by
  rcases step_cases h with ⟨pipe, forwarded, rfl⟩ | moves | hworld
  · simp only [Supervised.step, Option.map_eq_some_iff] at h
    obtain ⟨-, -, rfl⟩ := h
    exact ⟨fun _ h => h, rfl, fun h => h⟩
  · cases moves with
    | stops | killsChild | killsRest =>
        exact ⟨fun _ h => inv.status_endChild .signaled h, rfl, fun h => h⟩
    | _ => exact ⟨fun _ h => h, rfl, fun h => h⟩
  · have effect := worldEffect_of_step hworld
    refine ⟨fun status' hstatus => ?_, effect.timeout, effect.cancelled⟩
    rcases effect.child with ⟨-, hsame⟩ | ⟨-, -, -, -, hsame⟩ | ⟨status, -, hended⟩
    · rw [hsame, hstatus]
    · rw [hsame, hstatus]
    · rw [hended]
      exact inv.status_endChild status hstatus

/-- Only a cancel cancels, and only the command's exit is its exit. -/
lemma told_of_worldStep (h : s.worldStep act = some t) :
    (t.cancelled = true → s.cancelled = true ∨ act = .fireCancel) ∧
      ∀ status, t.status = some status → s.status = some status ∨ act = .childExits status := by
  cases act with
  | childExits status =>
      simp only [worldStep, Option.map_eq_some_iff] at h
      obtain ⟨p, hchild, rfl⟩ := h
      refine ⟨.inl, fun status' hstatus => .inr ?_⟩
      simp only [endChild, hchild, Option.isSome_some, if_true, Option.some.injEq] at hstatus
      rw [hstatus]
  | fireCancel =>
      obtain rfl := Option.some.inj h
      exact ⟨fun _ => .inr rfl, fun _ => .inl⟩
  | childLessens p' =>
      simp only [worldStep, Option.bind_eq_some_iff, Option.ite_none_right_eq_some,
        Option.some.injEq] at h
      obtain ⟨-, -, -, rfl⟩ := h
      exact ⟨.inl, fun _ => .inl⟩
  | forks | lessens | joins | prints | exits =>
      simp only [worldStep, Option.ite_none_right_eq_some, Option.some.injEq] at h
      obtain ⟨-, rfl⟩ := h
      exact ⟨.inl, fun _ => .inl⟩
  | _ => simp [worldStep] at h

/-- What the history tells of a command and its supervisor. -/
structure Told (h : List SuperviseAct) (s : Supervised) : Prop where
  cancelled : s.cancelled = true → .fireCancel ∈ h
  /-- Until `supervise` has picked an end, nobody has killed the command. -/
  exited : s.supervisor = .selecting → ∀ status, s.status = some status → .childExits status ∈ h
  outcome : ∀ o, s.supervisor.outcome = some o → ∃ ended, Happened h s ended ∧
    ∀ describedAs printed, (supervise describedAs (.ran printed ended)).1 = o

variable {h : List SuperviseAct}

lemma Told.goes_on (told : Told h s) (keeps : Keeps s t)
    (hcancelled : t.cancelled = true → s.cancelled = true ∨ act = .fireCancel)
    (hexited : t.supervisor = .selecting → s.supervisor = .selecting ∧
      ∀ status, t.status = some status → s.status = some status ∨ act = .childExits status)
    (houtcome : ∀ o, t.supervisor.outcome = some o → s.supervisor.outcome = some o) :
    Told (h ++ [act]) t := by
  refine ⟨fun hset => ?_, fun hselecting status hstatus => ?_, fun o ho => ?_⟩
  · rcases hcancelled hset with hset | rfl
    · exact List.mem_append_left _ (told.cancelled hset)
    · exact List.mem_append_right _ (List.mem_singleton_self _)
  · obtain ⟨hselecting, htold⟩ := hexited hselecting
    rcases htold status hstatus with hstatus | rfl
    · exact List.mem_append_left _ (told.exited hselecting status hstatus)
    · exact List.mem_append_right _ (List.mem_singleton_self _)
  · obtain ⟨ended, happened, hended⟩ := told.outcome o (houtcome o ho)
    exact ⟨ended, happened.mono keeps (List.sublist_append_left _ _), hended⟩

/-- `supervise` picks an end that has happened, in this step at the latest. -/
lemma Told.picks {supervisor : SupervisorAt} (told : Told h s) (ended : CommandEnd)
    (hpicked : supervisor ≠ .selecting)
    (hstate : Happened (h ++ [act]) s ended)
    (houtcome : ∀ o, supervisor.outcome = some o →
      ∀ describedAs printed, (supervise describedAs (.ran printed ended)).1 = o) :
    Told (h ++ [act]) { s with supervisor } :=
  ⟨fun hset => List.mem_append_left _ (told.cancelled hset), fun h => absurd h hpicked,
    fun o ho => ⟨ended, hstate, houtcome o ho⟩⟩

lemma Told.supervisor (told : Told h s) (keeps : Keeps s t) (moves : s.SupervisorMoves act t) :
    Told (h ++ [act]) t := by
  have hlast : ∀ seen : SuperviseAct, [seen].Sublist (h ++ [seen]) := fun seen =>
    List.sublist_append_right h [seen]
  have hboth : ∀ made seen : SuperviseAct, made ∈ h → [made, seen].Sublist (h ++ [seen]) :=
    fun made seen hmade => (List.singleton_sublist.mpr hmade).append (.refl [seen])
  cases moves with
  | seesExit status hselecting hchild hstatus =>
      have hends := hboth _ SuperviseAct.seesExit (told.exited hselecting status hstatus)
      refine told.picks (.waited status) nofun ⟨hends, hstatus⟩ ?_
      rintro o ⟨rfl⟩ _ _
      rfl
  | waitFails e =>
      refine told.picks (.waitFailed e) nofun ⟨hlast _, trivial⟩ ?_
      rintro o ⟨rfl⟩ _ _
      rfl
  | deadlinePasses hselecting hlimited =>
      refine told.picks .deadline nofun ⟨hlast _, hlimited⟩ ?_
      rintro o ⟨rfl⟩ _ _
      rfl
  | seesCancel hselecting hfired =>
      have hends := hboth _ SuperviseAct.seesCancel (told.cancelled hfired)
      refine told.picks .cancelled nofun ⟨hends, hfired⟩ ?_
      rintro o ⟨rfl⟩ _ _
      rfl
  | stops why hstopping =>
      exact told.goes_on keeps .inl nofun (fun o ho => by rw [hstopping]; exact ho)
  | killsChild why hkilling =>
      exact told.goes_on keeps .inl nofun (fun o ho => by rw [hkilling]; exact ho)
  | killsRest outcome hended =>
      exact told.goes_on keeps .inl nofun (fun o ho => by rw [hended]; exact ho)
  | drained outcome hdraining =>
      exact told.goes_on keeps .inl nofun (fun o ho => by rw [hdraining]; exact ho)
  | graceElapses outcome hdraining =>
      exact told.goes_on keeps .inl nofun (fun o ho => by rw [hdraining]; exact ho)

lemma Told.step (told : Told h s) (inv : Supervision s) (hstep : s.step act = some t) :
    Told (h ++ [act]) t := by
  have keeps := inv.keeps hstep
  rcases step_cases hstep with ⟨pipe, forwarded, rfl⟩ | moves | hworld
  · simp only [Supervised.step, Option.map_eq_some_iff] at hstep
    obtain ⟨⟨r, line⟩, hreader, rfl⟩ := hstep
    exact told.goes_on keeps .inl (fun h => ⟨h, fun _ => .inl⟩) (fun _ h => h)
  · exact told.supervisor keeps moves
  · obtain ⟨hcancelled, hexited⟩ := told_of_worldStep hworld
    have hsame := (worldEffect_of_step hworld).supervisor
    refine told.goes_on keeps hcancelled (fun h => ⟨hsame ▸ h, hexited⟩) (fun o ho => ?_)
    rwa [hsame] at ho

lemma told_of_run {timeout : Option ℕ}
    (run : Run step anyAction actionsShown (spawned timeout) h s) : Told h s := by
  have hboth : Supervision s ∧ Told h s := by
    refine run.history_invariant (I := fun h s => Supervision s ∧ Told h s) ?_ ?_
    · rintro h s act t ⟨inv, told⟩ _ hstep
      exact ⟨inv.step hstep, told.step inv hstep⟩
    · exact ⟨supervision_spawned timeout, nofun, nofun, nofun⟩
  exact hboth.2

/-! ## The group -/

/-- What a step leaves of a task that has come to its end. -/
lemma step_of_ended (inv : Supervision s) (h : s.step act = some t)
    (hover : (s.forwarders pipe).standing ≠ .reading) :
    (t.forwarders pipe).standing = (s.forwarders pipe).standing ∧
      ChildLines.textsOn pipe t.appended = ChildLines.textsOn pipe s.appended ∧
        ((s.forwarders pipe).standing = .ended → t.written pipe = s.written pipe) := by
  rcases step_cases h with ⟨pipe', forwarded, rfl⟩ | moves | h
  · simp only [step, Option.map_eq_some_iff] at h
    obtain ⟨⟨r, line⟩, hreader, rfl⟩ := h
    have hreading : (s.forwarders pipe').standing = .reading := by
      by_contra hstopped
      cases forwarded <;> simp [PipeReader.step, hstopped] at hreader
    have hpipe : pipe ≠ pipe' := by
      rintro rfl
      exact hover hreading
    refine ⟨by simp only [Function.update_of_ne hpipe], ?_, fun _ => rfl⟩
    rw [ChildLines.textsOn_append]
    cases line <;> simp [ChildLines.textsOn, Ne.symm hpipe]
  · obtain ⟨hforwarders, happended, hwritten⟩ : t.forwarders = s.forwarders ∧
        t.appended = s.appended ∧ t.written = s.written := by
      cases moves <;> exact ⟨rfl, rfl, rfl⟩
    rw [hforwarders, happended, hwritten]
    exact ⟨rfl, rfl, fun _ => rfl⟩
  · have effect := worldEffect_of_step h
    obtain ⟨chunk, hwritten, hforwarder, hopen⟩ := effect.pipes pipe
    rw [hforwarder, effect.appended, hwritten]
    refine ⟨rfl, rfl, fun hended => ?_⟩
    obtain ⟨handed, hhanded, -⟩ := inv.pipes pipe
    rcases hopen with rfl | hopen
    · rw [List.append_nil]
    · rw [(hhanded.all hended).2] at hopen
      cases hopen

/-- **What is framed is what was printed.**  At any point the frames of each pipe are the beginning
of the lines printed on it.  If both tasks return in time, no frame is appended once `supervise` has
returned, whatever is still alive; and where a task came to the end of its pipe, every line was
framed and nobody can print another. -/
theorem printed_lines_framed {timeout : Option ℕ}
    (run : Run step anyAction actionsShown (spawned timeout) h s) :
    (∀ pipe, ChildLines.textsOn pipe s.appended <+:
      (segments lineFeed (s.written pipe)).map fromUtf8Lossy) ∧
    ∀ t, s.step .drained = some t → ∀ h' u, Run step anyAction actionsShown t h' u → ∀ pipe,
      ChildLines.textsOn pipe u.appended = ChildLines.textsOn pipe s.appended ∧
        ((s.forwarders pipe).standing = .ended → u.written pipe = s.written pipe ∧
          ChildLines.textsOn pipe s.appended =
            (segments lineFeed (s.written pipe)).map fromUtf8Lossy) := by
  have inv := supervision_of_run run
  refine ⟨fun pipe => ?_, ?_⟩
  · obtain ⟨handed, hhanded, htexts⟩ := inv.pipes pipe
    rw [htexts]
    exact hhanded.begins.map _
  · intro t hdrained h' u hlater pipe
    have inv' := inv.step hdrained
    obtain ⟨hover, hsame⟩ : (∀ pipe, (s.forwarders pipe).standing ≠ .reading) ∧
        t.forwarders = s.forwarders ∧ t.appended = s.appended ∧ t.written = s.written := by
      have hmoved : s.supervisorStep .drained = some t := hdrained
      cases supervisorMoves_of_step hmoved with
      | drained outcome hdraining hforwarded => exact ⟨hforwarded, rfl, rfl, rfl⟩
    obtain ⟨hforwarders, happended, hwritten⟩ := hsame
    have hkept : Supervision u ∧
        (u.forwarders pipe).standing = (s.forwarders pipe).standing ∧
          ChildLines.textsOn pipe u.appended = ChildLines.textsOn pipe s.appended ∧
            ((s.forwarders pipe).standing = .ended → u.written pipe = s.written pipe) := by
      refine hlater.invariant (I := fun u => Supervision u ∧
        (u.forwarders pipe).standing = (s.forwarders pipe).standing ∧
          ChildLines.textsOn pipe u.appended = ChildLines.textsOn pipe s.appended ∧
            ((s.forwarders pipe).standing = .ended → u.written pipe = s.written pipe)) ?_ ?_
      · rintro v act w ⟨hv, hstanding, htexts, hsame⟩ _ hstep
        obtain ⟨hstanding', htexts', hsame'⟩ := step_of_ended hv hstep
          (by rw [hstanding]; exact hover pipe)
        exact ⟨hv.step hstep, hstanding'.trans hstanding, htexts'.trans htexts,
          fun hended => (hsame' (hstanding.trans hended)).trans (hsame hended)⟩
      · rw [hforwarders, happended, hwritten]
        exact ⟨inv', rfl, rfl, fun _ => rfl⟩
    obtain ⟨-, -, htexts, hsame⟩ := hkept
    refine ⟨htexts, fun hended => ⟨hsame hended, ?_⟩⟩
    obtain ⟨handed, hhanded, hframed⟩ := inv.pipes pipe
    rw [hframed, (hhanded.all hended).1]

/-! ## A command that leaves something behind

It prints a line, leaves one process in its group and one outside it with its stdout open, and
exits. -/

def leavesTwoBehind : List SuperviseAct :=
  [.prints ⟨true, true, true⟩ .stdout (utf8 "7\n"), .forks ⟨true, true, true⟩ ⟨true, true, true⟩,
    .forks ⟨true, true, true⟩ ⟨false, true, false⟩, .childExits (.exited 0), .seesExit,
    .forward .stdout (.fill 2), .killsGroup, .forward .stdout .scan, .forward .stdout .handOn,
    .forward .stderr .endOfFile]

/-- The one outside ends in time. -/
theorem printed_lines_framed_left : ∃ s t,
    exec step (spawned none) (leavesTwoBehind ++
      [.exits ⟨false, true, false⟩, .forward .stdout .endOfFile]) = some s ∧
        s.step .drained = some t ∧
          ChildLines.textsOn .stdout t.appended =
            (segments lineFeed (s.written .stdout)).map fromUtf8Lossy := by
  have hdone : (exec step (spawned none) (leavesTwoBehind ++
      [.exits ⟨false, true, false⟩, .forward .stdout .endOfFile])).map (fun s =>
        ((s.step .drained).isSome, (s.forwarders .stdout).standing)) = some (true, .ended) := by
    decide +kernel
  obtain ⟨s, hs, hend⟩ := Option.map_eq_some_iff.mp hdone
  simp only [Prod.mk.injEq] at hend
  obtain ⟨hdrained, hended⟩ := hend
  obtain ⟨t, ht⟩ := Option.isSome_iff_exists.mp hdrained
  obtain ⟨-, hframed⟩ := printed_lines_framed (.of_exec hs)
  obtain ⟨hsame, hall⟩ := hframed t ht [] t (.nil t) .stdout
  exact ⟨s, t, hs, ht, hsame.trans (hall hended).2⟩

end Supervised

end AssemblyLine
