import AssemblyLine.Daemon.Dispatch

/-!
# One job, as the parties of a daemon act on it

Whatever a step of a daemon does, to one job it is one of a few things.  `JobView` is what of a
root and a daemon concerns one job: its log, its registered rounds, its entry in the cancel table,
whether a submit is about to continue it, and what a starting daemon still owes it.  `JobMove`
lists the things that can happen to it, with what makes each of them possible, and `JobInv` is the
invariant they all keep (`JobInv.move`): the log is a lifecycle, and no two parties are in a
position to write its next letter.
-/

namespace AssemblyLine

/-! ## Views -/

/-- A registered round, as its job sees it. -/
structure Crewman where
  round : ℕ
  /-- How many requests the log held when the round was registered. -/
  asked : ℕ
  stage : Stage
  /-- Whether its entry in the cancel table is still its own to take out. -/
  registered : Bool
deriving DecidableEq, Repr

/-- What of a root and a daemon concerns one job. -/
structure JobView where
  events : List Event
  crew : Token → Option Crewman
  entry : Option LaunchedRound
  /-- A submit has found the job idle, and has not recorded its request. -/
  submitting : Bool
  /-- What a starting daemon has yet to give the job. -/
  owed : Option Resumption

/-- Where a job stands while one of its rounds is at this stage. -/
def Stage.standing : Stage → Standing
  | .waiting => .requested
  | .started => .started
  | .launched => .launched
  | .over => .idle

lemma Stage.standing_injective : Function.Injective Stage.standing := by
  intro s t h
  cases s <;> cases t <;> first | rfl | cases h

namespace JobView

def rounds (v : JobView) : ℕ := (JobProgress.ofEvents v.events).rounds

/-- None of the job's rounds has a lifecycle event to come. -/
def Unattended (v : JobView) : Prop := ∀ token m, v.crew token = some m → m.stage = .over

def setCrew (v : JobView) (token : Token) (m : Crewman) : JobView :=
  { v with crew := Function.update v.crew token (some m) }

end JobView

/-! ## What can happen to a job -/

/-- The things that can happen to a job. -/
inductive JobMove (id : ℕ) (v : JobView) : JobView → Prop
  | quiet : JobMove id v v
  /-- A round reports progress. -/
  | progress (e : Event) (reports : e.kind.lifecycle = none) :
      JobMove id v { v with events := v.events ++ [e] }
  /-- A submit finds the job idle. -/
  | accept (idle : standing v.events = some .idle) (paid : v.owed = none) :
      JobMove id v { v with submitting := true }
  | withdraw : JobMove id v { v with submitting := false }
  /-- A submit records its request. -/
  | request (e : Event) (asks : e.kind.lifecycle = some .requested)
      (admitted : v.submitting = true) :
      JobMove id v { v with events := v.events ++ [e], submitting := false }
  /-- A request is closed without a round of its own: cancelled, or lost with its daemon. -/
  | close (e : Event) (fails : e.kind.lifecycle = some .failed)
      (open_ : standing v.events = some .requested ∨ standing v.events = some .started)
      (unattended : v.Unattended) :
      JobMove id v { v with events := v.events ++ [e], owed := none }
  | requeue (owes : v.owed = some .requeue) : JobMove id v { v with owed := none }
  /-- The dispatcher registers the job's next round. -/
  | register (token : Token) (fresh : v.crew token = none)
      (queued : standing v.events = some .requested)
      (free : ∀ launched, v.entry = some launched → launched.round ≠ v.rounds + 1)
      (paid : v.owed = none) :
      JobMove id v
        { v.setCrew token ⟨v.rounds + 1, requestsIn v.events, .waiting, true⟩ with
          entry := some ⟨v.rounds + 1, token⟩ }
  /-- A starting daemon takes up a round an earlier one launched. -/
  | reattach (token : Token) (handle : RoundHandle)
      (owes : v.owed = some (.reattach v.rounds handle)) :
      JobMove id v
        { v.setCrew token ⟨v.rounds, requestsIn v.events, .launched, true⟩ with
          entry := some ⟨v.rounds, token⟩
          owed := none }
  /-- A round records its next lifecycle event. -/
  | advance (token : Token) (m : Crewman) (stage : Stage) (e : Event)
      (mine : v.crew token = some m) (working : m.stage ≠ .over)
      (letter : e.kind.lifecycle ≠ none)
      (legal : m.stage.standing.afterEvent e = some stage.standing)
      (numbered : ∀ round, e.kind = .roundStarted round → round = m.round) :
      JobMove id v { v.setCrew token { m with stage } with events := v.events ++ [e] }
  /-- A round gives up before it starts, and says nothing. -/
  | abandon (token : Token) (m : Crewman) (mine : v.crew token = some m)
      (waits : m.stage = .waiting) :
      JobMove id v (v.setCrew token { m with stage := .over })
  | dropRegistration (token : Token) (m : Crewman) (mine : v.crew token = some m)
      (ended : m.stage = .over) (held : m.registered = true) :
      JobMove id v
        { v.setCrew token { m with registered := false } with
          entry := if v.entry.any fun launched => launched.round = m.round then none else v.entry }
  | dropSlot (token : Token) (m : Crewman) (mine : v.crew token = some m)
      (dropped : m.registered = false) (ended : m.stage = .over) :
      JobMove id v { v with crew := Function.update v.crew token none }

/-- A log only grows. -/
lemma JobMove.grows {id : ℕ} {v v' : JobView} (hmove : JobMove id v v') :
    v.events <+: v'.events := by
  cases hmove with
  | progress e reports => exact List.prefix_append _ _
  | request e asks admitted => exact List.prefix_append _ _
  | close e fails open_ unattended => exact List.prefix_append _ _
  | advance token m stage e mine working letter legal numbered => exact List.prefix_append _ _
  | _ => exact List.prefix_refl _

/-! ## What always holds of a job -/

/-- What always holds of a job, whatever its daemon and its rounds have done. -/
structure JobInv (id : ℕ) (v : JobView) : Prop where
  stands : ∃ s, standing v.events = some s
  increase : RoundsIncrease v.events
  /-- A round with a lifecycle event to come is where the job stands, and is the one entered. -/
  atWork : ∀ token m, v.crew token = some m → m.stage ≠ .over →
    standing v.events = some m.stage.standing ∧
      m.round = v.rounds + (if m.stage = .waiting then 1 else 0) ∧
      m.asked = requestsIn v.events ∧ m.registered = true ∧ v.entry = some ⟨m.round, token⟩
  bound : ∀ token m, v.crew token = some m → m.round ≤ v.rounds + 1
  /-- Only one registered round can be the job's next. -/
  next : ∀ token m, v.crew token = some m → m.registered = true → m.round = v.rounds + 1 →
    v.entry = some ⟨m.round, token⟩
  unique : ∀ token m token' m', v.crew token = some m → v.crew token' = some m' →
    m.registered = true → m'.registered = true → m.round = m'.round → token = token'
  entered : ∀ launched, v.entry = some launched →
    ∃ m, v.crew launched.cancel = some m ∧ m.round = launched.round ∧ m.registered = true
  submits : v.submitting = true → standing v.events = some .idle
  owes : ∀ resumption, v.owed = some resumption →
    owed id v.events = some resumption ∧ (∀ token, v.crew token = none) ∧ v.submitting = false

namespace JobView

variable {v : JobView} {token token' : Token} {m m' : Crewman}

@[simp] lemma setCrew_events : (v.setCrew token m).events = v.events := rfl
@[simp] lemma setCrew_entry : (v.setCrew token m).entry = v.entry := rfl
@[simp] lemma setCrew_submitting : (v.setCrew token m).submitting = v.submitting := rfl
@[simp] lemma setCrew_owed : (v.setCrew token m).owed = v.owed := rfl
@[simp] lemma setCrew_rounds : (v.setCrew token m).rounds = v.rounds := rfl

lemma setCrew_crew : (v.setCrew token m).crew token' =
    if token' = token then some m else v.crew token' := by
  by_cases h : token' = token
  · simp [setCrew, h]
  · simp [setCrew, h]

/-- Whom `setCrew` leaves at a token: the new round there, or an old one elsewhere. -/
lemma crew_of_setCrew (h : (v.setCrew token m).crew token' = some m') :
    (token' = token ∧ m' = m) ∨ (token' ≠ token ∧ v.crew token' = some m') := by
  rw [setCrew_crew] at h
  split at h
  · rename_i heq
    exact Or.inl ⟨heq, (Option.some.inj h).symm⟩
  · rename_i hne
    exact Or.inr ⟨hne, h⟩

lemma setCrew_crew_self : (v.setCrew token m).crew token = some m := by
  rw [setCrew_crew, if_pos rfl]

lemma setCrew_crew_of_ne (h : token' ≠ token) :
    (v.setCrew token m).crew token' = v.crew token' := by
  rw [setCrew_crew, if_neg h]

end JobView

namespace JobInv

variable {id : ℕ} {v : JobView} {token : Token} {m : Crewman} {e : Event}

/-- A job has at most one round at work, and every other is over. -/
lemma over_of_ne (inv : JobInv id v) (hm : v.crew token = some m) (hwork : m.stage ≠ .over)
    {token' : Token} {m' : Crewman} (hm' : v.crew token' = some m') (hne : token' ≠ token) :
    m'.stage = .over := by
  by_contra hwork'
  obtain ⟨-, -, -, -, hentry⟩ := inv.atWork token m hm hwork
  obtain ⟨-, -, -, -, hentry'⟩ := inv.atWork token' m' hm' hwork'
  rw [hentry, Option.some.injEq, LaunchedRound.mk.injEq] at hentry'
  exact hne hentry'.2.symm

/-- With a round at work on it, a job is not being submitted and is owed nothing. -/
lemma busy (inv : JobInv id v) (hm : v.crew token = some m) (hwork : m.stage ≠ .over) :
    v.submitting = false ∧ v.owed = none := by
  constructor
  · by_contra hsubmitting
    have hidle := inv.submits (by simpa using hsubmitting)
    rw [(inv.atWork token m hm hwork).1, Option.some.injEq] at hidle
    exact hwork (Stage.standing_injective hidle)
  · by_contra howed
    obtain ⟨resumption, hresumption⟩ := Option.ne_none_iff_exists'.mp howed
    have hnone := (inv.owes resumption hresumption).2.1 token
    simp [hm] at hnone

/-- Unless the job is requested, started or launched, none of its rounds is at work. -/
lemma unattended_of_idle (inv : JobInv id v) (hidle : standing v.events = some .idle) :
    v.Unattended := by
  intro token m hm
  by_contra hwork
  have hstands := (inv.atWork token m hm hwork).1
  rw [hidle, Option.some.injEq] at hstands
  exact hwork (Stage.standing_injective hstands.symm)

/-- A queued job whose next round is not the one entered has no round at work. -/
lemma unattended_of_free (inv : JobInv id v) (queued : standing v.events = some .requested)
    (free : ∀ launched, v.entry = some launched → launched.round ≠ v.rounds + 1) :
    v.Unattended := by
  intro token m hm
  by_contra hwork
  obtain ⟨hstands, hround, -, -, hentry⟩ := inv.atWork token m hm hwork
  rw [queued, Option.some.injEq] at hstands
  have hwaiting : Stage.waiting = m.stage := Stage.standing_injective hstands
  rw [if_pos hwaiting.symm] at hround
  exact free _ hentry hround

/-- What an event that starts no round and asks for none leaves alone. -/
lemma rounds_snoc (v : JobView) (h : e.kind.lifecycle ≠ some .started) :
    (JobProgress.ofEvents (v.events ++ [e])).rounds = v.rounds := by
  rw [JobProgress.ofEvents_snoc, JobProgress.rounds_afterEvent_of_ne _ h]
  rfl

lemma requestsIn_snoc (v : JobView) (h : e.kind.lifecycle ≠ some .requested) :
    requestsIn (v.events ++ [e]) = requestsIn v.events := by
  rw [requestsIn_append, requestsIn_singleton, if_neg h, Nat.add_zero]

end JobInv

/-! ## Every move keeps the invariant -/

section Moves

variable {id : ℕ} {v : JobView} {token : Token} {m : Crewman} {e : Event}

lemma JobInv.progress (inv : JobInv id v) (reports : e.kind.lifecycle = none) :
    JobInv id { v with events := v.events ++ [e] } := by
  have hstanding : standing (v.events ++ [e]) = standing v.events :=
    standing_snoc_of_progress reports
  have hrounds : JobView.rounds { v with events := v.events ++ [e] } = v.rounds :=
    rounds_snoc v (by simp [reports])
  have hrequests := requestsIn_snoc v (e := e) (by simp [reports])
  have howed : owed id (v.events ++ [e]) = owed id v.events := by
    obtain ⟨hstate, hr, hlaunched⟩ :=
      (JobProgress.ofEvents v.events).afterEvent_of_progress reports
    simp only [owed, Resumption.forReport, JobReport.fromEvents_state,
      JobReport.fromEvents_launched, JobReport.fromEvents_rounds, JobProgress.ofEvents_snoc, hstate,
      hr, hlaunched]
  refine ⟨?_, inv.increase.snoc_of_ne (by simp [reports]), ?_, ?_, ?_, inv.unique, inv.entered, ?_,
    ?_⟩
  · rw [hstanding]
    exact inv.stands
  · intro token m hm hwork
    dsimp only
    rw [hstanding, hrounds, hrequests]
    exact inv.atWork token m hm hwork
  · intro token m hm
    rw [hrounds]
    exact inv.bound token m hm
  · intro token m hm
    rw [hrounds]
    exact inv.next token m hm
  · rw [hstanding]
    exact inv.submits
  · intro resumption hresumption
    dsimp only
    rw [howed]
    exact inv.owes resumption hresumption

lemma JobInv.accept (inv : JobInv id v) (idle : standing v.events = some .idle)
    (paid : v.owed = none) : JobInv id { v with submitting := true } :=
  ⟨inv.stands, inv.increase, inv.atWork, inv.bound, inv.next, inv.unique, inv.entered,
    fun _ => idle, fun _ h => absurd (h.symm.trans paid) (by simp)⟩

lemma JobInv.withdraw (inv : JobInv id v) : JobInv id { v with submitting := false } :=
  ⟨inv.stands, inv.increase, inv.atWork, inv.bound, inv.next, inv.unique, inv.entered,
    fun h => absurd h (by simp), fun r h => ⟨(inv.owes r h).1, (inv.owes r h).2.1, rfl⟩⟩

lemma JobInv.request (inv : JobInv id v) (asks : e.kind.lifecycle = some .requested)
    (admitted : v.submitting = true) :
    JobInv id { v with events := v.events ++ [e], submitting := false } := by
  have hidle := inv.submits admitted
  have hstanding : standing (v.events ++ [e]) = some .requested :=
    standing_snoc_of hidle (by simp [Standing.afterEvent, asks, Standing.after])
  have hrounds : JobView.rounds { v with events := v.events ++ [e], submitting := false } =
      v.rounds := rounds_snoc v (by simp [asks])
  have hover := inv.unattended_of_idle hidle
  refine ⟨⟨_, hstanding⟩, inv.increase.snoc_of_ne (by simp [asks]), ?_, ?_, ?_, inv.unique,
    inv.entered, by simp, ?_⟩
  · intro token m hm hwork
    exact absurd (hover token m hm) hwork
  · intro token m hm
    rw [hrounds]
    exact inv.bound token m hm
  · intro token m hm
    rw [hrounds]
    exact inv.next token m hm
  · intro resumption hresumption
    have hsubmitting := (inv.owes resumption hresumption).2.2
    simp [admitted] at hsubmitting

lemma JobInv.close (inv : JobInv id v) (fails : e.kind.lifecycle = some .failed)
    (open_ : standing v.events = some .requested ∨ standing v.events = some .started)
    (unattended : v.Unattended) :
    JobInv id { v with events := v.events ++ [e], owed := none } := by
  have hstanding : standing (v.events ++ [e]) = some .idle := by
    rcases open_ with h | h <;>
      exact standing_snoc_of h (by simp [Standing.afterEvent, fails, Standing.after])
  have hrounds : JobView.rounds { v with events := v.events ++ [e], owed := none } = v.rounds :=
    rounds_snoc v (by simp [fails])
  refine ⟨⟨_, hstanding⟩, inv.increase.snoc_of_ne (by simp [fails]), ?_, ?_, ?_, inv.unique,
    inv.entered, fun _ => hstanding, by simp⟩
  · intro token m hm hwork
    exact absurd (unattended token m hm) hwork
  · intro token m hm
    rw [hrounds]
    exact inv.bound token m hm
  · intro token m hm
    rw [hrounds]
    exact inv.next token m hm

lemma JobInv.requeue (inv : JobInv id v) : JobInv id { v with owed := none } :=
  ⟨inv.stands, inv.increase, inv.atWork, inv.bound, inv.next, inv.unique, inv.entered,
    inv.submits, by simp⟩

lemma JobInv.register (inv : JobInv id v) (fresh : v.crew token = none)
    (queued : standing v.events = some .requested)
    (free : ∀ launched, v.entry = some launched → launched.round ≠ v.rounds + 1)
    (paid : v.owed = none) :
    JobInv id { v.setCrew token ⟨v.rounds + 1, requestsIn v.events, .waiting, true⟩ with
      entry := some ⟨v.rounds + 1, token⟩ } := by
  -- Every other round is over, and none of those still registered is the next.
  have hover := inv.unattended_of_free queued free
  have hearlier : ∀ token m, v.crew token = some m → m.registered = true → m.round ≤ v.rounds := by
    intro token m hm hregistered
    have hbound := inv.bound token m hm
    by_contra hnext
    exact free _ (inv.next token m hm hregistered (by omega)) (by dsimp only; omega)
  refine ⟨inv.stands, inv.increase, ?_, ?_, ?_, ?_, ?_, inv.submits, ?_⟩
  · intro token' m hm hwork
    rcases JobView.crew_of_setCrew hm with ⟨rfl, rfl⟩ | ⟨-, hm⟩
    · exact ⟨queued, rfl, rfl, rfl, rfl⟩
    · exact absurd (hover token' m hm) hwork
  · intro token' m hm
    rcases JobView.crew_of_setCrew hm with ⟨rfl, rfl⟩ | ⟨-, hm⟩
    · exact Nat.le_refl _
    · exact inv.bound token' m hm
  · intro token' m hm hregistered hround
    rcases JobView.crew_of_setCrew hm with ⟨rfl, rfl⟩ | ⟨-, hm⟩
    · rfl
    · have hle := hearlier token' m hm hregistered
      have hsame : m.round = v.rounds + 1 := hround
      omega
  · intro token₁ m₁ token₂ m₂ h₁ h₂ hr₁ hr₂ hround
    rcases JobView.crew_of_setCrew h₁ with ⟨rfl, rfl⟩ | ⟨-, hold₁⟩ <;>
      rcases JobView.crew_of_setCrew h₂ with ⟨rfl, rfl⟩ | ⟨-, hold₂⟩
    · rfl
    · have hle := hearlier token₂ m₂ hold₂ hr₂
      dsimp only at hround
      omega
    · have hle := hearlier token₁ m₁ hold₁ hr₁
      dsimp only at hround
      omega
    · exact inv.unique token₁ m₁ token₂ m₂ hold₁ hold₂ hr₁ hr₂ hround
  · intro launched hlaunched
    obtain rfl : _ = launched := Option.some.inj hlaunched
    exact ⟨_, JobView.setCrew_crew_self, rfl, rfl⟩
  · intro resumption hresumption
    simp [paid] at hresumption

lemma JobInv.reattach (inv : JobInv id v) {handle : RoundHandle}
    (owes : v.owed = some (.reattach v.rounds handle)) :
    JobInv id { v.setCrew token ⟨v.rounds, requestsIn v.events, .launched, true⟩ with
      entry := some ⟨v.rounds, token⟩
      owed := none } := by
  obtain ⟨howed, hnone, hsubmitting⟩ := inv.owes _ owes
  -- Only a launched job is owed a reattachment.
  have hlaunched : standing v.events = some .launched := by
    obtain ⟨s, hs⟩ := inv.stands
    rw [hs, (launched_of_owed hs howed).1]
  have halone : ∀ token' m',
      (v.setCrew token ⟨v.rounds, requestsIn v.events, .launched, true⟩).crew token' = some m' →
        token' = token ∧ m' = ⟨v.rounds, requestsIn v.events, .launched, true⟩ := by
    intro token' m' hm'
    rcases JobView.crew_of_setCrew hm' with h | ⟨-, hold⟩
    · exact h
    · simp [hnone] at hold
  refine ⟨inv.stands, inv.increase, ?_, ?_, ?_, ?_, ?_, ?_, by simp⟩
  · intro token' m' hm' _
    obtain ⟨rfl, rfl⟩ := halone token' m' hm'
    exact ⟨hlaunched, rfl, rfl, rfl, rfl⟩
  · intro token' m' hm'
    obtain ⟨rfl, rfl⟩ := halone token' m' hm'
    exact Nat.le_succ _
  · intro token' m' hm' _ _
    obtain ⟨rfl, rfl⟩ := halone token' m' hm'
    rfl
  · intro token₁ m₁ token₂ m₂ h₁ h₂ _ _ _
    rw [(halone token₁ m₁ h₁).1, (halone token₂ m₂ h₂).1]
  · intro launched hentry
    obtain rfl : _ = launched := Option.some.inj hentry
    exact ⟨_, JobView.setCrew_crew_self, rfl, rfl⟩
  · intro h
    simp [hsubmitting] at h

/-- What a round's next lifecycle event makes of the round count: it starts the job's next round,
or leaves the count alone. -/
lemma rounds_of_advance (inv : JobInv id v) (mine : v.crew token = some m)
    (working : m.stage ≠ .over) {stage : Stage}
    (legal : m.stage.standing.afterEvent e = some stage.standing)
    (numbered : ∀ round, e.kind = .roundStarted round → round = m.round) :
    (e.kind.lifecycle = some .started ∧ m.stage = .waiting ∧ stage = .started ∧
        m.round = v.rounds + 1 ∧ (JobProgress.ofEvents (v.events ++ [e])).rounds = v.rounds + 1) ∨
      (e.kind.lifecycle ≠ some .started ∧
        (JobProgress.ofEvents (v.events ++ [e])).rounds = v.rounds) := by
  by_cases hstarts : e.kind.lifecycle = some .started
  · left
    have hround := (inv.atWork token m mine working).2.1
    obtain ⟨stamp, kind⟩ := e
    cases kind <;> simp [EventKind.lifecycle] at hstarts
    rename_i round
    obtain rfl := numbered round rfl
    have hwaiting : m.stage = .waiting ∧ stage = .started := by
      cases hfrom : m.stage <;> cases hto : stage <;>
        simp [hfrom, hto, Stage.standing, Standing.afterEvent, EventKind.lifecycle,
          Standing.after] at legal
      exact ⟨rfl, rfl⟩
    rw [if_pos hwaiting.1] at hround
    refine ⟨rfl, hwaiting.1, hwaiting.2, hround, ?_⟩
    have hcount : (JobProgress.ofEvents v.events).rounds = v.rounds := rfl
    rw [JobProgress.ofEvents_snoc]
    simp only [JobProgress.afterEvent, hcount, hround]
    omega
  · exact Or.inr ⟨hstarts, JobInv.rounds_snoc v hstarts⟩

/-- Whatever happens to a job, its round count stays the number of its rounds that have started. -/
lemma JobMove.counted (inv : JobInv id v) {v' : JobView} (hmove : JobMove id v v')
    (h : v.rounds = (startedRounds v.events).length) :
    v'.rounds = (startedRounds v'.events).length := by
  have hother : ∀ e : Event, e.kind.lifecycle ≠ some .started →
      (JobProgress.ofEvents (v.events ++ [e])).rounds =
        (startedRounds (v.events ++ [e])).length := by
    intro e he
    rw [JobInv.rounds_snoc v he, startedRounds_append, startedRounds_singleton_of_ne he,
      List.append_nil]
    exact h
  cases hmove with
  | progress e reports => exact hother e (by simp [reports])
  | request e asks admitted => exact hother e (by simp [asks])
  | close e fails open_ unattended => exact hother e (by simp [fails])
  | advance token m stage e mine working letter legal numbered =>
      rcases rounds_of_advance inv mine working legal numbered with
        ⟨hstarts, -, -, -, hrounds⟩ | ⟨hstarts, -⟩
      · obtain ⟨stamp, kind⟩ := e
        cases kind <;> simp [EventKind.lifecycle] at hstarts
        refine hrounds.trans ?_
        rw [h, startedRounds_append, startedRounds_singleton_started, List.length_append]
        rfl
      · exact hother e hstarts
  | _ => exact h

lemma JobInv.advance (inv : JobInv id v) (mine : v.crew token = some m) (working : m.stage ≠ .over)
    {stage : Stage} (letter : e.kind.lifecycle ≠ none)
    (legal : m.stage.standing.afterEvent e = some stage.standing)
    (numbered : ∀ round, e.kind = .roundStarted round → round = m.round) :
    JobInv id { v.setCrew token { m with stage } with events := v.events ++ [e] } := by
  obtain ⟨hstands, hround, hasked, hregistered, hentry⟩ := inv.atWork token m mine working
  obtain ⟨hsubmitting, howed⟩ := inv.busy mine working
  have hstanding : standing (v.events ++ [e]) = some stage.standing :=
    standing_snoc_of hstands legal
  have hletter : e.kind.lifecycle ≠ some .requested := by
    intro hasks
    cases hstage : m.stage <;>
      simp [hstage, Standing.afterEvent, hasks, Stage.standing, Standing.after] at legal working
  have hrequests := requestsIn_snoc v hletter
  have hcases := rounds_of_advance inv mine working legal numbered
  have hgrows : v.rounds ≤ (JobProgress.ofEvents (v.events ++ [e])).rounds := by omega
  refine ⟨⟨_, hstanding⟩, ?_, ?_, ?_, ?_, ?_, ?_, ?_, ?_⟩
  · by_cases hstarts : e.kind.lifecycle = some .started
    · obtain ⟨stamp, kind⟩ := e
      cases kind <;> simp [EventKind.lifecycle] at hstarts
      rename_i round
      obtain rfl := numbered round rfl
      refine inv.increase.snoc_started ?_
      have hnext : m.round = v.rounds + 1 := by
        rcases hcases with h | h
        · exact h.2.2.2.1
        · exact absurd rfl h.1
      have hcount : (JobProgress.ofEvents v.events).rounds = v.rounds := rfl
      omega
    · exact inv.increase.snoc_of_ne hstarts
  · intro token' m' hm' hwork'
    rcases JobView.crew_of_setCrew hm' with ⟨rfl, rfl⟩ | ⟨hne, hold⟩
    · refine ⟨hstanding, ?_, hasked.trans hrequests.symm, hregistered, hentry⟩
      show m.round = (JobProgress.ofEvents (v.events ++ [e])).rounds +
        (if stage = .waiting then 1 else 0)
      rcases hcases with ⟨-, -, rfl, hnext, hcount⟩ | ⟨hstarts, hcount⟩
      · simp [hnext, hcount]
      · -- Nothing leads back to waiting, and only starting leaves it.
        have hneither : m.stage ≠ .waiting ∧ stage ≠ .waiting := by
          dsimp only at hwork'
          cases hletter' : e.kind.lifecycle with
          | none => exact absurd hletter' letter
          | some x =>
              cases hfrom : m.stage <;> cases hto : stage <;> cases x <;>
                simp [hfrom, hto, hletter', Standing.afterEvent, Stage.standing, Standing.after]
                  at legal hstarts working hwork' ⊢
        rw [if_neg hneither.1, Nat.add_zero] at hround
        rw [if_neg hneither.2, hcount, hround, Nat.add_zero]
    · exact absurd (inv.over_of_ne mine working hold hne) hwork'
  · intro token' m' hm'
    show m'.round ≤ (JobProgress.ofEvents (v.events ++ [e])).rounds + 1
    rcases JobView.crew_of_setCrew hm' with ⟨rfl, rfl⟩ | ⟨-, hold⟩
    · have hbound := inv.bound token' m mine
      dsimp only
      omega
    · have hbound := inv.bound token' m' hold
      omega
  · intro token' m' hm' hreg hnext
    have hsame : m'.round = (JobProgress.ofEvents (v.events ++ [e])).rounds + 1 := hnext
    rcases JobView.crew_of_setCrew hm' with ⟨rfl, rfl⟩ | ⟨-, hold⟩
    · exact hentry
    · have hbound := inv.bound token' m' hold
      exact inv.next token' m' hold hreg (by omega)
  · intro token₁ m₁ token₂ m₂ h₁ h₂ hr₁ hr₂ hrounds
    rcases JobView.crew_of_setCrew h₁ with ⟨rfl, rfl⟩ | ⟨-, hold₁⟩ <;>
      rcases JobView.crew_of_setCrew h₂ with ⟨rfl, rfl⟩ | ⟨-, hold₂⟩
    · rfl
    · exact inv.unique _ m _ m₂ mine hold₂ hr₁ hr₂ hrounds
    · exact inv.unique _ m₁ _ m hold₁ mine hr₁ hr₂ hrounds
    · exact inv.unique _ m₁ _ m₂ hold₁ hold₂ hr₁ hr₂ hrounds
  · intro launched hlaunched
    obtain ⟨m', hm', hsame, hreg⟩ := inv.entered launched hlaunched
    by_cases heq : launched.cancel = token
    · obtain rfl : m' = m := by
        rw [heq, mine] at hm'
        exact (Option.some.inj hm').symm
      exact ⟨{ m' with stage }, by rw [heq]; exact JobView.setCrew_crew_self, hsame, hreg⟩
    · exact ⟨m', (JobView.setCrew_crew_of_ne heq).trans hm', hsame, hreg⟩
  · intro h
    exact absurd (hsubmitting.symm.trans h) (by simp)
  · intro resumption hresumption
    exact absurd (howed.symm.trans hresumption) (by simp)

lemma JobInv.abandon (inv : JobInv id v) (mine : v.crew token = some m)
    (waits : m.stage = .waiting) : JobInv id (v.setCrew token { m with stage := .over }) := by
  have working : m.stage ≠ .over := by simp [waits]
  obtain ⟨hstands, hround, -, hregistered, hentry⟩ := inv.atWork token m mine working
  refine ⟨inv.stands, inv.increase, ?_, ?_, ?_, ?_, ?_, inv.submits, ?_⟩
  · intro token' m' hm' hwork'
    rcases JobView.crew_of_setCrew hm' with ⟨rfl, rfl⟩ | ⟨hne, hold⟩
    · exact absurd rfl hwork'
    · exact absurd (inv.over_of_ne mine working hold hne) hwork'
  · intro token' m' hm'
    rcases JobView.crew_of_setCrew hm' with ⟨rfl, rfl⟩ | ⟨-, hold⟩
    · exact inv.bound token' m mine
    · exact inv.bound token' m' hold
  · intro token' m' hm' hreg hnext
    rcases JobView.crew_of_setCrew hm' with ⟨rfl, rfl⟩ | ⟨-, hold⟩
    · exact hentry
    · exact inv.next token' m' hold hreg hnext
  · intro token₁ m₁ token₂ m₂ h₁ h₂ hr₁ hr₂ hrounds
    rcases JobView.crew_of_setCrew h₁ with ⟨rfl, rfl⟩ | ⟨-, hold₁⟩ <;>
      rcases JobView.crew_of_setCrew h₂ with ⟨rfl, rfl⟩ | ⟨-, hold₂⟩
    · rfl
    · exact inv.unique _ m _ m₂ mine hold₂ hr₁ hr₂ hrounds
    · exact inv.unique _ m₁ _ m hold₁ mine hr₁ hr₂ hrounds
    · exact inv.unique _ m₁ _ m₂ hold₁ hold₂ hr₁ hr₂ hrounds
  · intro launched hlaunched
    obtain rfl : _ = launched := Option.some.inj (hentry.symm.trans hlaunched)
    exact ⟨_, JobView.setCrew_crew_self, rfl, hregistered⟩
  · intro resumption hresumption
    have howed := (inv.busy mine working).2
    exact absurd (howed.symm.trans hresumption) (by simp)

lemma JobInv.dropRegistration (inv : JobInv id v) (mine : v.crew token = some m)
    (ended : m.stage = .over) (held : m.registered = true) :
    JobInv id { v.setCrew token { m with registered := false } with
      entry :=
        if v.entry.any fun launched => launched.round = m.round then none else v.entry } := by
  -- What stays entered is another round, under another token.
  have hkept : ∀ launched, (if v.entry.any fun launched => launched.round = m.round then none
      else v.entry) = some launched → v.entry = some launched ∧ launched.cancel ≠ token := by
    intro launched hlaunched
    split at hlaunched
    · simp at hlaunched
    · rename_i hround
      refine ⟨hlaunched, ?_⟩
      rintro rfl
      obtain ⟨m', hm', hsame, -⟩ := inv.entered launched hlaunched
      rw [mine, Option.some.injEq] at hm'
      subst hm'
      simp [hlaunched, hsame] at hround
  have hother : ∀ token' m', v.crew token' = some m' → m'.registered = true → token' ≠ token →
      v.entry = some ⟨m'.round, token'⟩ →
      (if v.entry.any fun launched => launched.round = m.round then none else v.entry) =
        some ⟨m'.round, token'⟩ := by
    intro token' m' hm' hreg hne hentry
    rw [if_neg, hentry]
    rw [hentry]
    intro hround
    refine hne (inv.unique token' m' token m hm' mine hreg held ?_)
    simpa using hround
  refine ⟨inv.stands, inv.increase, ?_, ?_, ?_, ?_, ?_, inv.submits, ?_⟩
  · intro token' m' hm' hwork'
    rcases JobView.crew_of_setCrew hm' with ⟨rfl, rfl⟩ | ⟨hne, hold⟩
    · exact absurd ended hwork'
    · obtain ⟨hstands, hround, hasked, hreg, hentry⟩ := inv.atWork token' m' hold hwork'
      exact ⟨hstands, hround, hasked, hreg, hother token' m' hold hreg hne hentry⟩
  · intro token' m' hm'
    rcases JobView.crew_of_setCrew hm' with ⟨rfl, rfl⟩ | ⟨-, hold⟩
    · exact inv.bound token' m mine
    · exact inv.bound token' m' hold
  · intro token' m' hm' hreg hnext
    rcases JobView.crew_of_setCrew hm' with ⟨rfl, rfl⟩ | ⟨hne, hold⟩
    · simp at hreg
    · exact hother token' m' hold hreg hne (inv.next token' m' hold hreg hnext)
  · intro token₁ m₁ token₂ m₂ h₁ h₂ hr₁ hr₂ hrounds
    rcases JobView.crew_of_setCrew h₁ with ⟨rfl, rfl⟩ | ⟨-, hold₁⟩
    · simp at hr₁
    · rcases JobView.crew_of_setCrew h₂ with ⟨rfl, rfl⟩ | ⟨-, hold₂⟩
      · simp at hr₂
      · exact inv.unique _ m₁ _ m₂ hold₁ hold₂ hr₁ hr₂ hrounds
  · intro launched hlaunched
    obtain ⟨hentry, hne⟩ := hkept launched hlaunched
    obtain ⟨m', hm', hsame, hreg⟩ := inv.entered launched hentry
    exact ⟨m', (JobView.setCrew_crew_of_ne hne).trans hm', hsame, hreg⟩
  · intro resumption hresumption
    have hnone := (inv.owes resumption hresumption).2.1 token
    simp [mine] at hnone

lemma JobInv.dropSlot (inv : JobInv id v) (mine : v.crew token = some m)
    (dropped : m.registered = false) :
    JobInv id { v with crew := Function.update v.crew token none } := by
  have hold : ∀ token' m', Function.update v.crew token none token' = some m' →
      token' ≠ token ∧ v.crew token' = some m' := by
    intro token' m' hm'
    by_cases heq : token' = token
    · simp [heq] at hm'
    · exact ⟨heq, by rwa [Function.update_of_ne heq] at hm'⟩
  refine ⟨inv.stands, inv.increase, ?_, ?_, ?_, ?_, ?_, inv.submits, ?_⟩
  · intro token' m' hm'
    exact inv.atWork token' m' (hold token' m' hm').2
  · intro token' m' hm'
    exact inv.bound token' m' (hold token' m' hm').2
  · intro token' m' hm'
    exact inv.next token' m' (hold token' m' hm').2
  · intro token₁ m₁ token₂ m₂ h₁ h₂
    exact inv.unique _ m₁ _ m₂ (hold _ _ h₁).2 (hold _ _ h₂).2
  · intro launched hlaunched
    obtain ⟨m', hm', hsame, hreg⟩ := inv.entered launched hlaunched
    have hne : launched.cancel ≠ token := by
      intro heq
      rw [heq, mine, Option.some.injEq] at hm'
      rw [← hm', dropped] at hreg
      simp at hreg
    exact ⟨m', (Function.update_of_ne hne _ _).trans hm', hsame, hreg⟩
  · intro resumption hresumption
    have hnone := (inv.owes resumption hresumption).2.1 token
    simp [mine] at hnone

/-- **Every move keeps the invariant.** -/
theorem JobInv.move (inv : JobInv id v) {v' : JobView} (hmove : JobMove id v v') :
    JobInv id v' := by
  cases hmove with
  | quiet => exact inv
  | progress e reports => exact inv.progress reports
  | accept idle paid => exact inv.accept idle paid
  | withdraw => exact inv.withdraw
  | request e asks admitted => exact inv.request asks admitted
  | close e fails open_ unattended => exact inv.close fails open_ unattended
  | requeue owes => exact inv.requeue
  | register token fresh queued free paid => exact inv.register fresh queued free paid
  | reattach token handle owes => exact inv.reattach owes
  | advance token m stage e mine working letter legal numbered =>
      exact inv.advance mine working letter legal numbered
  | abandon token m mine waits => exact inv.abandon mine waits
  | dropRegistration token m mine ended held => exact inv.dropRegistration mine ended held
  | dropSlot token m mine dropped => exact inv.dropSlot mine dropped

/-! ## A running job is attended to -/

/-- While the job stands where a round at this stage leaves it, a round is at work on it, or will
be given it by a starting daemon. -/
def JobView.Attended (v : JobView) (stage : Stage) : Prop :=
  standing v.events = some stage.standing →
    v.owed ≠ none ∨ ∃ token m, v.crew token = some m ∧ m.stage ≠ .over

/-- A change to the rounds that leaves those at work. -/
lemma JobView.Attended.of_crew {v v' : JobView} {stage : Stage} (attended : v.Attended stage)
    (hevents : v'.events = v.events) (howed : v.owed ≠ none → v'.owed ≠ none)
    (hcrew : ∀ token m, v.crew token = some m → m.stage ≠ .over → v'.crew token = some m) :
    v'.Attended stage := by
  intro hs
  rw [hevents] at hs
  rcases attended hs with h | ⟨token, m, hm, hwork⟩
  · exact .inl (howed h)
  · exact .inr ⟨token, m, hcrew token m hm hwork, hwork⟩

/-- A started or launched job that is attended to stays so. -/
theorem JobView.Attended.move {stage : Stage} (attended : v.Attended stage) (inv : JobInv id v)
    (hstage : stage = .started ∨ stage = .launched) {v' : JobView} (hmove : JobMove id v v') :
    v'.Attended stage := by
  -- A job that is queued or idle is at neither stage.
  have hqueued : some Standing.requested ≠ some stage.standing := by
    rcases hstage with rfl | rfl <;> simp [Stage.standing]
  have hidle : some Standing.idle ≠ some stage.standing := by
    rcases hstage with rfl | rfl <;> simp [Stage.standing]
  cases hmove with
  | quiet => exact attended
  | progress e reports =>
      intro hs
      rw [standing_snoc_of_progress reports] at hs
      exact attended hs
  | accept idle paid => exact attended
  | withdraw => exact attended
  | request e asks admitted =>
      intro hs
      have hstanding : standing (v.events ++ [e]) = some .requested :=
        standing_snoc_of (inv.submits admitted)
          (by simp [Standing.afterEvent, asks, Standing.after])
      exact absurd (hstanding.symm.trans hs) hqueued
  | close e fails open_ unattended =>
      intro hs
      have hstanding : standing (v.events ++ [e]) = some .idle := by
        rcases open_ with h | h <;>
          exact standing_snoc_of h (by simp [Standing.afterEvent, fails, Standing.after])
      exact absurd (hstanding.symm.trans hs) hidle
  | requeue owes =>
      intro hs
      have hrequested := requested_of_owed hs (inv.owes _ owes).1
      exact absurd (congrArg some hrequested.symm) hqueued
  | register token fresh queued free paid =>
      intro hs
      exact absurd (queued.symm.trans hs) hqueued
  | reattach token handle owes =>
      exact fun _ => .inr ⟨token, _, JobView.setCrew_crew_self, by simp⟩
  | advance token m stage' e mine working letter legal numbered =>
      intro hs
      refine .inr ⟨token, { m with stage := stage' }, JobView.setCrew_crew_self, ?_⟩
      have hstanding := standing_snoc_of (inv.atWork token m mine working).1 legal
      have hsame : some stage'.standing = some stage.standing := hstanding.symm.trans hs
      rintro rfl
      exact hidle hsame
  | abandon token m mine waits =>
      intro hs
      have hstands := (inv.atWork token m mine (by simp [waits])).1
      rw [waits] at hstands
      exact absurd (hstands.symm.trans hs) hqueued
  | dropRegistration token m mine ended held =>
      refine attended.of_crew rfl (fun h => h) ?_
      intro token' m' hm' hwork'
      refine (JobView.setCrew_crew_of_ne ?_).trans hm'
      rintro rfl
      exact hwork' (Option.some.inj (mine.symm.trans hm') ▸ ended)
  | dropSlot token m mine dropped ended =>
      refine attended.of_crew rfl (fun h => h) ?_
      intro token' m' hm' hwork'
      refine (Function.update_of_ne ?_ _ _).trans hm'
      rintro rfl
      exact hwork' (Option.some.inj (mine.symm.trans hm') ▸ ended)

end Moves

end AssemblyLine
