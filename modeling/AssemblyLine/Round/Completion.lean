import AssemblyLine.Log.Report

/-!
# What a round reports

The events `run` prints for one round, in the order things settled: its work, its verdict, and
then the pull request that delivers it.  A run reports one verdict and nothing else that moves a
job through its lifecycle (`run_shape`).
-/

namespace AssemblyLine

/-- What an agent left behind, recorded on the job's branch. -/
structure AgentWork where
  branch : String
  sha : String
  stat : DiffSummary
  /-- The remote the branch reached. -/
  pushedTo : String
deriving DecidableEq, Repr

/-- How a round ended, and the work it left. -/
inductive RoundResult
  /-- An agent that correctly decided nothing needed doing. -/
  | passedUnchanged
  | passedWithWork (work : AgentWork)
  /-- `verify` rejected a round the agent finished cleanly. -/
  | rejected (reason : String) (work : Option AgentWork)
  | failed (reason : String) (work : Option AgentWork)
deriving DecidableEq, Repr

/-- What came of delivering a job's branch. -/
inductive Delivered
  /-- Nothing was attempted, and this is why. -/
  | skipped (why : String)
  /-- The branch was pushed, but no pull request was opened. -/
  | pushed (branch because : String)
  | opened (url : String)
  /-- The branch already had a pull request. -/
  | alreadyOpen (url : String)
deriving DecidableEq, Repr

/-- Empty for an agent that correctly changed nothing. -/
def workRecorded : Option AgentWork → List EventKind
  | none => []
  | some w =>
    [.roundCommitted w.sha w.stat.files w.stat.insertions w.stat.deletions,
      .branchPushed w.branch w.pushedTo]

/-- The events a completion implies, paired with the verdict they add up to.  Work is recorded
before the verdict that judges it. -/
def eventsForCompletion : RoundResult → List EventKind × Verdict
  | .passedUnchanged => ([.roundPassed], .passed)
  | .passedWithWork work => (workRecorded (some work) ++ [.roundPassed], .passed)
  | .rejected reason work =>
    (workRecorded work ++
      [.verifyRejected reason, .roundFailed s!"verify rejected the work: {reason}"], .failed)
  | .failed reason work => (workRecorded work ++ [.roundFailed reason], .failed)

/-- The event `deliver` records, for a pull request that exists; it prints a line of output
otherwise. -/
def Delivered.event : Delivered → Option EventKind
  | .opened url => some (.pullRequestOpened url)
  | .alreadyOpen url => some (.pullRequestOpened url)
  | .skipped _ => none
  | .pushed _ _ => none

/-- The events `ReadyJob::run` appends: `workspace` is what starting the round came to, and then
how the round ended; a branch that passed and carries work is delivered. -/
def readyJobRun (workspace : Except String RoundResult) (branchCarriesWork : Bool)
    (delivered : Delivered) : List EventKind :=
  match workspace with
  | .error reason => [.roundFailed reason]
  | .ok result =>
    (eventsForCompletion result).1 ++
      match (eventsForCompletion result).2, branchCarriesWork with
      | .passed, true => delivered.event.toList
      | .passed, false => []
      | .failed, _ => []

section Shape

variable {k : EventKind}

lemma lifecycle_of_mem_workRecorded {work : Option AgentWork} (h : k ∈ workRecorded work) :
    k.lifecycle = none := by
  cases work with
  | none => simp [workRecorded] at h
  | some w =>
      simp only [workRecorded, List.mem_cons, List.not_mem_nil, or_false] at h
      rcases h with rfl | rfl <;> rfl

lemma lifecycle_of_mem_event {delivered : Delivered} (h : k ∈ delivered.event.toList) :
    k.lifecycle = none := by
  cases delivered <;> simp [Delivered.event] at h <;> rw [h] <;> rfl

/-- A completion ends with its verdict, after events that only report progress. -/
lemma eventsForCompletion_shape (result : RoundResult) :
    ∃ before verdict, (eventsForCompletion result).1 = before ++ [verdict] ∧
      verdict.verdict.isSome ∧ ∀ k ∈ before, k.lifecycle = none := by
  cases result with
  | passedUnchanged => exact ⟨[], .roundPassed, rfl, rfl, by simp⟩
  | passedWithWork work =>
      exact ⟨workRecorded (some work), .roundPassed, rfl, rfl,
        fun k hk => lifecycle_of_mem_workRecorded hk⟩
  | rejected reason work =>
      refine ⟨workRecorded work ++ [.verifyRejected reason],
        .roundFailed s!"verify rejected the work: {reason}", ?_, rfl, ?_⟩
      · rw [List.append_assoc]
        rfl
      · intro k hk
        rcases List.mem_append.mp hk with hk | hk
        · exact lifecycle_of_mem_workRecorded hk
        · rw [List.mem_singleton.mp hk]
          rfl
  | failed reason work =>
      exact ⟨workRecorded work, .roundFailed reason, rfl, rfl,
        fun k hk => lifecycle_of_mem_workRecorded hk⟩

/-- A run reports one verdict, and before and after it only progress. -/
theorem run_shape (workspace : Except String RoundResult) (branchCarriesWork : Bool)
    (delivered : Delivered) :
    ∃ before verdict after,
      readyJobRun workspace branchCarriesWork delivered = before ++ verdict :: after ∧
      verdict.verdict.isSome ∧ (∀ k ∈ before, k.lifecycle = none) ∧
      ∀ k ∈ after, k.lifecycle = none := by
  cases workspace with
  | error reason => exact ⟨[], .roundFailed reason, [], rfl, rfl, by simp, by simp⟩
  | ok result =>
      obtain ⟨before, verdict, hevents, hverdict, hbefore⟩ := eventsForCompletion_shape result
      simp only [readyJobRun, hevents]
      refine ⟨before, verdict, _, by rw [List.append_assoc]; rfl, hverdict, hbefore, ?_⟩
      intro k hk
      split at hk
      · exact lifecycle_of_mem_event hk
      · simp at hk
      · simp at hk

end Shape

end AssemblyLine
