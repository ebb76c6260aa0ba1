import AssemblyLine.Round.Outcome

/-!
# What a rejection records

A `VerifyRejected` is a claim about the work, in a log that is never corrected, so it should stand
for a `verify` that ran to completion and exited non-zero, and for no other end of it.  Two
translations lie between the process and the event.  `supervise` makes an exit code of a status,
`-1` of one that has none, and `VerifyRuling.ofOutcome` makes a rejection of every code but 0: so a
`verify` killed by a signal `supervise` did not send is recorded as if it had judged.

`verifyRejected_iff` is exactly when a rejection stands for what it should.
-/

namespace AssemblyLine

/-- A command that exited, with a code that is not 0. -/
def CommandRun.Refused (run : CommandRun) : Prop :=
  ∃ printed code, run = .ran printed (.waited (.exited code)) ∧ code ≠ 0

/-- A command that was killed by a signal, sent by nothing in this program. -/
def CommandRun.KilledFromOutside (run : CommandRun) : Prop :=
  ∃ printed, run = .ran printed (.waited .signaled)

/-- A command that was killed by a signal: at the deadline, by the cancel, or from outside. -/
def CommandRun.Killed (run : CommandRun) : Prop :=
  ∃ printed, run = .ran printed .deadline ∨ run = .ran printed .cancelled ∨
    run = .ran printed (.waited .signaled)

lemma CommandRun.Refused.not_killed {run : CommandRun} (h : run.Refused) : ¬ run.Killed := by
  obtain ⟨printed, code, rfl, -⟩ := h
  rintro ⟨printed', hran | hran | hran⟩ <;> cases hran

lemma CommandRun.Killed.not_succeeded {run : CommandRun} (h : run.Killed) : ¬ run.Succeeded := by
  rintro ⟨printed, rfl⟩
  obtain ⟨printed', hran | hran | hran⟩ := h <;> cases hran

section Ruling

variable {world : RoundWorld} {payload : RoundPayload}

/-- What a command that was waited for is rejected for: its code, or the `-1` of one that has
none. -/
lemma rejected_iff (describedAs : String) (run : CommandRun) :
    (∃ reason, VerifyRuling.ofOutcome (supervise describedAs run).1 = .rejected reason) ↔
      run.Refused ∨ run.KilledFromOutside := by
  unfold CommandRun.Refused CommandRun.KilledFromOutside
  cases run with
  | unspawnable e => simp [supervise, VerifyRuling.ofOutcome]
  | ran printed ended =>
      cases ended with
      | waited status =>
          cases status with
          | exited code =>
              by_cases hcode : code = 0 <;>
                simp [supervise, ExitStatus.code, VerifyRuling.ofOutcome, hcode]
          | signaled => simp [supervise, ExitStatus.code, VerifyRuling.ofOutcome]
      | waitFailed e => simp [supervise, VerifyRuling.ofOutcome]
      | deadline => simp [supervise, VerifyRuling.ofOutcome]
      | cancelled => simp [supervise, VerifyRuling.ofOutcome]

/-- `verify` rejects when it is configured, and refused or was killed from outside. -/
lemma verifyRuling_rejected_iff :
    (∃ reason, (verifyRuling world payload).1 = .rejected reason) ↔
      payload.verify.isSome ∧ (world.verify.Refused ∨ world.verify.KilledFromOutside) := by
  unfold verifyRuling
  cases payload.verify with
  | none => simp
  | some command => simpa using rejected_iff command world.verify

/-- `verify` is asked only once the agent has succeeded. -/
lemma rulingOnAgent_rejected_iff :
    (∃ reason, (rulingOnAgent world payload).1 = .rejected reason) ↔
      world.agent.Succeeded ∧ payload.verify.isSome ∧
        (world.verify.Refused ∨ world.verify.KilledFromOutside) := by
  have hagent : agentFailure world payload = none ↔ world.agent.Succeeded :=
    agentFailureReason_eq_none_iff _ _
  rw [← hagent, ← verifyRuling_rejected_iff, rulingOnAgent]
  cases agentFailure world payload <;> simp

lemma verifyRejected_notMem_workRecorded (work : Option AgentWork) (reason : String) :
    EventKind.verifyRejected reason ∉ workRecorded work := by
  cases work <;> simp [workRecorded]

/-- A completion records a rejection for the result that is one. -/
lemma verifyRejected_mem_roundResult_iff (failure : Option String) (ruling : VerifyRuling)
    (work : Option AgentWork) :
    (∃ reason, .verifyRejected reason ∈
        (eventsForCompletion (roundResult failure ruling work)).1) ↔
      failure = none ∧ ∃ reason, ruling = .rejected reason := by
  cases failure with
  | some reason =>
      simp [roundResult, eventsForCompletion, verifyRejected_notMem_workRecorded]
  | none =>
      cases ruling <;> cases work <;>
        simp [roundResult, eventsForCompletion, verifyRejected_notMem_workRecorded]

/-- A round whose work was recorded comes out by the agent and by the ruling on its work. -/
lemma roundResultIn_of_recorded (hprovisions : world.Provisions payload)
    (hpreserves : world.Preserves) : ∃ work, roundResultIn world payload =
      roundResult (agentFailure world payload) (rulingOnAgent world payload).1 work := by
  obtain ⟨work, hwork⟩ : ∃ work, agentWorkOnBranch world payload = .ok work :=
    agentWorkOnBranch_iff.mpr hpreserves
  rw [roundResultIn_eq, RoundWorld.provisionToolchain_fst_iff.mpr hprovisions, hwork]
  exact ⟨work, rfl⟩

/-- When a round whose work was recorded records a rejection. -/
lemma verifyRejected_mem_completion_iff (hprovisions : world.Provisions payload)
    (hpreserves : world.Preserves) :
    (∃ reason, .verifyRejected reason ∈
        (eventsForCompletion (roundResultIn world payload)).1) ↔
      world.agent.Succeeded ∧ payload.verify.isSome ∧
        (world.verify.Refused ∨ world.verify.KilledFromOutside) := by
  obtain ⟨work, hwork⟩ := roundResultIn_of_recorded hprovisions hpreserves
  rw [hwork, verifyRejected_mem_roundResult_iff]
  have hagent : agentFailure world payload = none ↔ world.agent.Succeeded :=
    agentFailureReason_eq_none_iff _ _
  rw [hagent, rulingOnAgent_rejected_iff]
  exact and_iff_right_of_imp fun h => h.1

end Ruling

/-- A pull request is not a rejection, so a job's events hold the rejections of its completion. -/
lemma ReadyJob.verifyRejected_mem_events_iff (job : ReadyJob) (world : RoundWorld)
    (hstarted : world.startRound = .ok ()) :
    (∃ reason, .verifyRejected reason ∈ (job.events world).map Event.kind) ↔
      ∃ reason, .verifyRejected reason ∈
        (eventsForCompletion (roundResultIn world job.payload)).1 := by
  have hdelivered : ∀ reason (delivered : Delivered),
      .verifyRejected reason ∉ delivered.event.toList := by
    intro reason delivered
    cases delivered <;> simp [Delivered.event]
  rw [ReadyJob.events, map_kind_stampedBy, ReadyJob.kindsOf_run, ReadyJob.workspaceResult,
    hstarted]
  simp only [Except.map, readyJobRun, List.mem_append]
  refine exists_congr fun reason => or_iff_left ?_
  split
  · exact hdelivered _ _
  · exact List.not_mem_nil
  · exact List.not_mem_nil

/-- A round whose `verify` was killed has failed. -/
lemma ReadyJob.failed_of_killed (job : ReadyJob) (world : RoundWorld)
    (hstarted : world.startRound = .ok ()) (hverify : job.payload.verify.isSome)
    (hkilled : world.verify.Killed) : (job.run world).1.verdict = .failed := by
  rw [ReadyJob.verdict_run, ReadyJob.workspaceResult, hstarted]
  change (eventsForCompletion (roundResultIn world job.payload)).2 = .failed
  cases hverdict : (eventsForCompletion (roundResultIn world job.payload)).2 with
  | failed => rfl
  | passed =>
      obtain ⟨-, -, -, hverifies⟩ := verdict_roundResultIn_iff.mp hverdict
      exact absurd (hverifies hverify) hkilled.not_succeeded

/-- **When a rejection records only a ruling `verify` reached.**  In a round whose work was
recorded without error, its events hold a `VerifyRejected` exactly when the agent exited 0 and
`verify` itself exited non-zero, and a `verify` that was killed fails the round without one, unless
`verify` was asked and a signal from outside killed it. -/
theorem verifyRejected_iff (job : ReadyJob) (world : RoundWorld)
    (hstarted : world.startRound = .ok ()) (hprovisions : world.Provisions job.payload)
    (hpreserves : world.Preserves) :
    (((∃ reason, .verifyRejected reason ∈ (job.events world).map Event.kind) ↔
          world.agent.Succeeded ∧ job.payload.verify.isSome ∧ world.verify.Refused) ∧
        (world.agent.Succeeded → job.payload.verify.isSome → world.verify.Killed →
          (job.run world).1.verdict = .failed ∧
            ∀ reason, .verifyRejected reason ∉ (job.events world).map Event.kind)) ↔
      ¬ (world.agent.Succeeded ∧ job.payload.verify.isSome ∧ world.verify.KilledFromOutside) := by
  rw [job.verifyRejected_mem_events_iff world hstarted,
    verifyRejected_mem_completion_iff hprovisions hpreserves]
  constructor
  · rintro ⟨hrejected, -⟩ ⟨hagent, hverify, hkilled⟩
    obtain ⟨-, -, printed, code, hrefused, -⟩ := hrejected.mp ⟨hagent, hverify, Or.inr hkilled⟩
    obtain ⟨printed', hkilled⟩ := hkilled
    rw [hkilled] at hrefused
    cases hrefused
  · intro hnot
    have hrefused : (world.agent.Succeeded ∧ job.payload.verify.isSome ∧
        (world.verify.Refused ∨ world.verify.KilledFromOutside)) ↔
          world.agent.Succeeded ∧ job.payload.verify.isSome ∧ world.verify.Refused := by
      refine and_congr_right fun hagent => and_congr_right fun hverify => ?_
      exact or_iff_left fun hkilled => hnot ⟨hagent, hverify, hkilled⟩
    refine ⟨hrefused, fun hagent hverify hkilled => ⟨?_, fun reason hmem => ?_⟩⟩
    · exact job.failed_of_killed world hstarted hverify hkilled
    · have hasked := (job.verifyRejected_mem_events_iff world hstarted).mp ⟨reason, hmem⟩
      obtain ⟨-, -, hran⟩ := hrefused.mp
        ((verifyRejected_mem_completion_iff hprovisions hpreserves).mp hasked)
      exact hran.not_killed hkilled

/-! ## A `verify` the kernel killed -/

/-- A job of a repository with a `verify`. -/
def verifiedJob : ReadyJob where
  payload :=
    { jobId := 1
      remoteUrl := "git@example.com:o/r.git"
      remoteName := "origin"
      start := ⟨"main", "5f2a"⟩
      branch := "al/job-1"
      command := ⟨"claude", []⟩
      commitMessage := "add a test"
      verify := some "cargo test"
      commandLimitSecs := none
      provisionToolchain := false }
  config := { verify := some "cargo test" }
  base := ⟨"main", "5f2a"⟩
  prompt := "add a test"
  claimed := true

/-- A round in which all goes well until `verify`, which ends so. -/
def worldWhereVerify (ended : CommandEnd) : RoundWorld where
  checkOut := .ok ()
  commitAs := .ok ()
  provisioning _ := ⟨0, .ran [] (.waited (.exited 0))⟩
  agent := .ran [] (.waited (.exited 0))
  commitAll := .ok ()
  headIsAhead := .ok true
  headSha := .ok "91c4"
  diffStat := .ok ⟨1, 2, 0⟩
  pushHead _ := .ok ()
  verify := .ran ["running 3 tests"] ended
  commitIsAhead _ _ := .ok true
  gh _ := .error "not found"
  discard := .ok ()
  clock _ := 0

lemma worldWhereVerify_recorded (ended : CommandEnd) :
    (worldWhereVerify ended).startRound = .ok () ∧
      (worldWhereVerify ended).Provisions verifiedJob.payload ∧
      (worldWhereVerify ended).Preserves := by
  refine ⟨rfl, fun hasks => absurd hasks (by decide), some "91c4", rfl, fun _ => ?_⟩
  exact ⟨⟨⟨1, 2, 0⟩, rfl⟩, 0, by decide, rfl⟩

/-- **A killed `verify` is recorded as a rejection**, with an exit code it never had. -/
theorem killed_verify_rejects :
    (worldWhereVerify (.waited .signaled)).startRound = .ok () ∧
      (worldWhereVerify (.waited .signaled)).Provisions verifiedJob.payload ∧
      (worldWhereVerify (.waited .signaled)).Preserves ∧
      (worldWhereVerify (.waited .signaled)).verify.Killed ∧
      ¬ (worldWhereVerify (.waited .signaled)).verify.Refused ∧
      (verifiedJob.events (worldWhereVerify (.waited .signaled))).map Event.kind =
        [.roundCommitted "91c4" 1 2 0, .branchPushed "al/job-1" "origin",
          .verifyRejected "exit -1", .roundFailed "verify rejected the work: exit -1"] := by
  obtain ⟨hstarted, hprovisions, hpreserves⟩ := worldWhereVerify_recorded (.waited .signaled)
  refine ⟨hstarted, hprovisions, hpreserves, ⟨_, Or.inr (Or.inr rfl)⟩, ?_, by decide +kernel⟩
  rintro ⟨printed, code, hran, -⟩
  cases hran

/-- One cut off at its deadline judged nothing, and is not recorded to have. -/
theorem verifyRejected_iff_deadline :
    (worldWhereVerify .deadline).verify.Killed ∧
      (verifiedJob.run (worldWhereVerify .deadline)).1.verdict = .failed ∧
      ∀ reason, .verifyRejected reason ∉
        (verifiedJob.events (worldWhereVerify .deadline)).map Event.kind := by
  obtain ⟨hstarted, hprovisions, hpreserves⟩ := worldWhereVerify_recorded .deadline
  have hkilled : (worldWhereVerify .deadline).verify.Killed := ⟨_, Or.inl rfl⟩
  have hasked := (verifyRejected_iff verifiedJob _ hstarted hprovisions hpreserves).mpr (by
    rintro ⟨-, -, printed, hran⟩
    cases hran)
  exact ⟨hkilled, hasked.2 ⟨[], rfl⟩ rfl hkilled⟩

end AssemblyLine
