import AssemblyLine.Framework.Lines
import Mathlib.Data.Int.Notation
import Mathlib.Data.List.Basic
import Mathlib.Tactic.DeriveCountable

/-!
# What happens to a job

The vocabulary of a job's log: `EventKind`, as `event.rs` has it, with the state a job can be
in (`state.rs`), the handle a launched round is found again by (`runner/mod.rs`) and the pinned
base a round starts from (`git.rs`).  A job's identity — its repository, base, prompt and
provider — is its first `EventKind.roundRequested`.

Times are nanoseconds since the epoch, since all the code does with a `DateTime<Utc>` is compare
and subtract.  Counts and round numbers are natural numbers.  A `PathBuf` is the list of its
components, which is all `join` and `parent` depend on; its components are text, as those of every
path are that a log can hold: `serde` refuses to write an event with any other.
-/

namespace AssemblyLine

/-- A `DateTime<Utc>`. -/
abbrev Instant := ℤ

/-- A `PathBuf` of UTF-8, by its components.  An event with a path that is not UTF-8 is never
written. -/
abbrev PathBuf := List String

/-- A ref and the commit it was at when it was pinned. -/
structure PinnedRef where
  name : String
  sha : String
deriving DecidableEq, Repr

/-- Enough to find a launched round again, from another daemon process if need be. -/
inductive RoundHandle
  /-- `run` leading a session of its own, writing its frames to `frames`. -/
  | localRun (pid : ℤ) (frames : PathBuf)
  | docker (container : String)
  | kubernetes (job : String)
deriving DecidableEq, Repr

/-- Everything that happens to one job. -/
inductive EventKind
  /-- A round was asked for: the job's first, or a revise. -/
  | roundRequested (remoteUrl : String) (base : PinnedRef) (prompt provider : String)
  /-- A round began.  Round 1 starts the job; each revise adds one. -/
  | roundStarted (round : ℕ)
  /-- The round is running on its runner, and this is how to find it again. -/
  | roundLaunched (handle : RoundHandle)
  | roundCommitted (sha : String) (files insertions deletions : ℕ)
  | branchPushed (branch pushedTo : String)
  | pullRequestOpened (url : String)
  | verifyRejected (reason : String)
  | roundPassed
  | roundFailed (reason : String)
deriving DecidableEq, Repr

/-- One line of a job's log. -/
structure Event where
  /-- The source's `at`. -/
  stamp : Instant
  kind : EventKind
deriving DecidableEq, Repr

deriving instance Countable for PinnedRef
deriving instance Countable for RoundHandle
deriving instance Countable for EventKind
deriving instance Countable for Event

/-- A job's state, as the fold of its log derives it. -/
inductive JobState
  | pending
  /-- Asked for, and waiting for a slot to run in. -/
  | queued
  | running
  | passed
  | failed
deriving DecidableEq, Repr, Inhabited

/-- The two ways a round can end. -/
inductive Verdict
  | passed
  | failed
deriving DecidableEq, Repr

/-- The verdict an event is, when it is one: the match of `verdict_of`, and of
`verdict_missing_from`. -/
def EventKind.verdict : EventKind → Option Verdict
  | .roundPassed => some .passed
  | .roundFailed _ => some .failed
  | _ => none

/-! ## The lifecycle of a round

Five kinds of event move a job from one state to the next.  The other four report progress. -/

/-- The kinds of event that move a job through its lifecycle, without their data. -/
inductive Lifecycle
  | requested
  | started
  | launched
  | passed
  | failed
deriving DecidableEq, Repr

/-- The lifecycle letter of an event; `none` for one that only reports progress. -/
def EventKind.lifecycle : EventKind → Option Lifecycle
  | .roundRequested .. => some .requested
  | .roundStarted _ => some .started
  | .roundLaunched _ => some .launched
  | .roundPassed => some .passed
  | .roundFailed _ => some .failed
  | _ => none

/-- The lifecycle word of a log. -/
def lifecycleOf (events : List Event) : List Lifecycle :=
  events.filterMap fun e => e.kind.lifecycle

/-- The round numbers a log's `RoundStarted`s record, in order. -/
def startedRounds (events : List Event) : List ℕ :=
  events.filterMap fun e => match e.kind with
    | .roundStarted round => some round
    | _ => none

/-- How many rounds a log has been asked for. -/
def requestsIn (events : List Event) : ℕ :=
  (lifecycleOf events).count .requested

@[simp] lemma lifecycleOf_nil : lifecycleOf [] = [] := rfl

@[simp] lemma lifecycleOf_append (l k : List Event) :
    lifecycleOf (l ++ k) = lifecycleOf l ++ lifecycleOf k :=
  List.filterMap_append

@[simp] lemma lifecycleOf_singleton (e : Event) :
    lifecycleOf [e] = e.kind.lifecycle.toList := by
  cases h : e.kind.lifecycle <;> simp [lifecycleOf, h]

@[simp] lemma startedRounds_nil : startedRounds [] = [] := rfl

@[simp] lemma startedRounds_append (l k : List Event) :
    startedRounds (l ++ k) = startedRounds l ++ startedRounds k :=
  List.filterMap_append

lemma startedRounds_singleton_started (stamp : Instant) (round : ℕ) :
    startedRounds [⟨stamp, .roundStarted round⟩] = [round] := rfl

/-- Only a `RoundStarted` records a round number. -/
lemma startedRounds_singleton_of_ne {e : Event} (h : e.kind.lifecycle ≠ some .started) :
    startedRounds [e] = [] := by
  obtain ⟨stamp, kind⟩ := e
  cases kind <;> simp_all [startedRounds, EventKind.lifecycle]

@[simp] lemma requestsIn_append (l k : List Event) :
    requestsIn (l ++ k) = requestsIn l + requestsIn k := by
  simp [requestsIn]

lemma requestsIn_singleton (e : Event) :
    requestsIn [e] = if e.kind.lifecycle = some .requested then 1 else 0 := by
  cases h : e.kind.lifecycle with
  | none => simp [requestsIn, h]
  | some x => cases x <;> simp [requestsIn, h]

end AssemblyLine
